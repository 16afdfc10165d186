import DescribedEffects.Computation.Transcript
import Mathlib.Data.Nat.Pairing

/-!
# Computations apart from their surroundings

A host answers for everything that runs.  This module is about hosts that come in two
halves which know nothing of each other: `Programs` are the computations, whose
behaviour depends only on what is sent and thrown into them, and a `World` is all the
rest, the functions and coroutines that effects are performed with.  `Programs.host`
puts the halves together.  The same programs can be put into different worlds, which is
how a computation that is driven against a context is compared with the same
computation under test.

## Identities of exceptions

The library itself makes exceptions, and each needs an identity that no other one has.
To compare two runs of one program the exception that a malformed item is answered with
must be *the same* in both, although between two items one of the runs may have made
other exceptions as well.  So identities are pairs: how many items have been yielded
so far, and how many exceptions have been made since.  `Site` keeps both counts, and the
first exception after an item has the same identity in whatever world the item was
yielded.

## Overlooking the computations

A driver that asks only about other things than computations works on the `Site` alone
(`World.still`), and what it does there is what it does in the presence of any programs
whatsoever (`Programs.around`).
-/

namespace DescribedEffects

/-- Computations that keep to themselves.  One that has ended is closed quietly. -/
structure Programs (P : Type) where
  resume : Nat → Signal → P → Reply × P
  close : Nat → Exn → P → Option Exn × P
  close_ended : ∀ g signal because p, (∀ item, (resume g signal p).1 ≠ .yielded item) →
    (close g because (resume g signal p).2).1 = none

/-- What runs beside computations.  Requests that have been taken out are gone. -/
structure World (W : Type) where
  call : Value → List Value → W → Outcome × W
  start : Nat → W → Progress × W
  wake : Nat → W → Progress × W
  blame : Nat → Exn → W → W
  drain : W → List Request × W
  drain_drain : ∀ w, drain (drain w).2 = ([], (drain w).2)

/-- The world with other functions in it. -/
def World.withCalls {W : Type} (w : World W) (call : Value → List Value → W → Outcome × W) :
    World W :=
  { w with call }

/-- A world, with the counts that identities are made of. -/
structure Site (W : Type) where
  world : W
  /-- How many items have been yielded. -/
  items : Nat
  /-- How many exceptions have been made since the last of them. -/
  minted : Nat

namespace Site

variable {W : Type}

/-- Takes note of an item that was yielded. -/
def hear (s : Site W) : Reply → Site W
  | .yielded item => if item.isComputation then s else { s with items := s.items + 1, minted := 0 }
  | _ => s

@[simp] theorem world_hear (s : Site W) (reply : Reply) : (s.hear reply).world = s.world := by
  unfold hear
  split
  · split <;> rfl
  · rfl

theorem hear_item (s : Site W) {item : Value} (h : item.isComputation = false) :
    s.hear (.yielded item) = ⟨s.world, s.items + 1, 0⟩ := by
  simp [hear, h]

end Site

/-- A world without computations: there is nothing to resume or to close. -/
def World.still {W : Type} (V : World W) : Host (Site W) where
  resume _ _ s := (.returned .null, s)
  close _ _ s := (none, s)
  call f args s :=
    let (o, world) := V.call f args s.world
    (o, { s with world })
  start k s :=
    let (progress, world) := V.start k s.world
    (progress, { s with world })
  wake k s :=
    let (progress, world) := V.wake k s.world
    (progress, { s with world })
  fresh s := (Nat.pair s.items s.minted, { s with minted := s.minted + 1 })
  blame id cause s := { s with world := V.blame id cause s.world }
  drain s :=
    let (requests, world) := V.drain s.world
    (requests, { s with world })

/-- A world in which every call returns nothing and nothing is ever asked for. -/
def World.barren : World Unit where
  call _ _ w := (.ok .null, w)
  start _ w := (.finished (.ok .null), w)
  wake _ w := (.finished (.ok .null), w)
  blame _ _ w := w
  drain w := ([], w)
  drain_drain _ := rfl

namespace Programs

variable {P W : Type} (C : Programs P) (V : World W)

/-- Programs in a world. -/
def host : Host (P × Site W) where
  resume g signal s :=
    let (reply, programs) := C.resume g signal s.1
    (reply, programs, s.2.hear reply)
  close g because s :=
    let (raised, programs) := C.close g because s.1
    (raised, programs, s.2)
  call f args s := Prod.map id (Prod.mk s.1) (V.still.call f args s.2)
  start k s := Prod.map id (Prod.mk s.1) (V.still.start k s.2)
  wake k s := Prod.map id (Prod.mk s.1) (V.still.wake k s.2)
  fresh s := Prod.map id (Prod.mk s.1) (V.still.fresh s.2)
  blame id cause s := (s.1, V.still.blame id cause s.2)
  drain s := Prod.map id (Prod.mk s.1) (V.still.drain s.2)

/-- Programs that nobody asks about may be overlooked. -/
def around (programs : P) : Host.Surroundings V.still (C.host V) where
  view := Prod.mk programs
  call _ _ _ := rfl
  start _ _ := rfl
  wake _ _ := rfl
  fresh _ := rfl
  blame _ _ _ := rfl
  drain _ := rfl

@[simp] theorem view_around (programs : P) (s : Site W) :
    (C.around V programs).view s = (programs, s) := rfl

theorem host_resume (g : Nat) (signal : Signal) (p : P) (s : Site W) :
    (C.host V).resume g signal (p, s) =
      ((C.resume g signal p).1, (C.resume g signal p).2, s.hear (C.resume g signal p).1) := rfl

end Programs
end DescribedEffects
