import DescribedEffects.Proofs.Computation.Behaviour
import DescribedEffects.Proofs.Computation.Keeping

/-!
# Bodies and what comes out of them

A body is what a computation runs when it is resumed.  It can end in two ways, by returning and
by raising, and whoever resumed the computation is told of both by the same channel: the end is
marked by an exception, and a returned value travels inside it.  So a body that raises an
exception of that very kind would be taken for one that returned.

`Turn` keeps the two ends apart, and lets a body raise whatever it likes.  `Bodies.host` is the
host that runs bodies: what would mark the end of a computation does not leave a body, but turns
into an error that it is the cause of (`Surfaces`).  A computation that has ended is not protected
in this way: it raises whatever is thrown into it.  This is why it matters which computations are
resumed, and with what.  `Lined` says it of a stack of computations: the innermost can take
what it is resumed with, all others are suspended, and no computation stands in it twice.

Bodies share a world with the functions that they call, and that effects are performed with; both
can change it in any way.  What neither can do is to resume a computation.  A computation that a
body yields is a new one.
-/

namespace DescribedEffects

/-- How far a body gets when it runs. -/
inductive Turn (S : Type) where
  | returned (v : Value)
  | raised (e : Exn)
  | yielded (item : Value) (plain : item.isComputation = false) (next : S)
  /-- It yields another computation, which has not been started. -/
  | nested (inner next : S)

/-- What bodies do, in a world of their own. -/
structure Bodies (S σ : Type) where
  run : S → Signal → σ → Turn S × σ

/-- The computations that have been made, with the world around them. -/
structure Running (S σ : Type) where
  made : Computations S
  world : σ
  /-- The causes of exceptions, by the numbers of the exceptions. -/
  causes : List (Nat × Exn)

/-- What an exception is to whoever resumed the body that raised it: it is the same, unless it
would mark the end of a computation.  Then it is an error that was caused by it. -/
def Surfaces (sentence : String) (e surfaced : Exn) (causes : List (Nat × Exn)) : Prop :=
  if e.isExhausted then
    surfaced.body = ValueFault.saying .runtime sentence ∧ (surfaced.id, e) ∈ causes
  else surfaced = e

/-- What surfaces marks the end of nothing. -/
theorem Surfaces.isExhausted {sentence : String} {e surfaced : Exn} {causes : List (Nat × Exn)}
    (h : Surfaces sentence e surfaced causes) : surfaced.isExhausted = false := by
  unfold Surfaces at h
  split at h
  · show surfaced.body.kind.isA .exhausted = false
    rw [h.1]
    rfl
  · next hne =>
    rw [h]
    exact Bool.eq_false_iff.2 hne

theorem Surfaces.mono {sentence : String} {e surfaced : Exn} {causes causes' : List (Nat × Exn)}
    (h : Surfaces sentence e surfaced causes) (kept : ∀ cause ∈ causes, cause ∈ causes') :
    Surfaces sentence e surfaced causes' := by
  unfold Surfaces at h ⊢
  split at h
  · next he =>
    rw [if_pos he]
    exact ⟨h.1, kept _ h.2⟩
  · next he =>
    rw [if_neg he]
    exact h

namespace Running

variable {S σ : Type} (K : Host σ)

/-- Everything but the computations: questions go to the world, and causes are remembered. -/
def surroundings : Host (Running S σ) where
  resume _ _ s := (.returned .null, s)
  close _ _ s := (none, s)
  call f args s :=
    let (o, world) := K.call f args s.world
    (o, { s with world })
  start k s :=
    let (progress, world) := K.start k s.world
    (progress, { s with world })
  wake k s :=
    let (progress, world) := K.wake k s.world
    (progress, { s with world })
  fresh s :=
    let (id, world) := K.fresh s.world
    (id, { s with world })
  blame id cause s :=
    { s with world := K.blame id cause s.world, causes := s.causes ++ [(id, cause)] }
  drain s :=
    let (requests, world) := K.drain s.world
    (requests, { s with world })

/-- No question about anything else moves a computation. -/
theorem keeps_made (c : Computations S) : (surroundings K).Keeps fun s => s.made = c where
  call _ _ _ h := h
  start _ _ h := h
  wake _ _ h := h
  fresh _ h := h
  blame _ _ _ h := h
  drain _ h := h

/-- No cause is forgotten. -/
theorem keeps_causes (cause : Nat × Exn) :
    (surroundings (S := S) K).Keeps fun s => cause ∈ s.causes where
  call _ _ _ h := h
  start _ _ h := h
  wake _ _ h := h
  fresh _ h := h
  blame _ _ _ h := List.mem_append_left _ h
  drain _ h := h

/-- What leaves a body surfaces. -/
theorem surfaces_shield (sentence : String) (e : Exn) (s : Running S σ) :
    Surfaces sentence e ((surroundings K).shield sentence e s).1
      ((surroundings K).shield sentence e s).2.causes := by
  unfold Surfaces Host.shield
  split
  · exact ⟨rfl, List.mem_append_right _ (List.mem_singleton_self _)⟩
  · rfl

/-- Moves a computation. -/
def stand (s : Running S σ) (g : Nat) (standing : Standing S) : Running S σ :=
  { s with made := s.made.stand g standing }

end Running

namespace Bodies

variable {S σ : Type} (B : Bodies S σ) (K : Host σ)

/-- What a turn of a body means to whoever resumed its computation. -/
def answer (g : Nat) (s : Running S σ) : Turn S × σ → Reply × Running S σ
  | (.returned v, world) => (.returned v, { s with world }.stand g .ended)
  | (.raised e, world) =>
    let (e, s) := (Running.surroundings K).shield "generator raised StopIteration" e
      ({ s with world }.stand g .ended)
    (.raised e, s)
  | (.yielded item _ next, world) => (.yielded item, { s with world }.stand g (.suspended next))
  | (.nested inner next, world) =>
    let s := { s with world }.stand g (.suspended next)
    (.yielded (.computation s.made.standings.length), { s with made := s.made.make inner })

/-- Resumes a computation.  One that has not been started takes nothing but nothing; what is
thrown into it leaves it at once, as out of a body.  One that has ended returns nothing, or raises
what is thrown into it. -/
def resumeAt (g : Nat) (signal : Signal) (s : Running S σ) : Reply × Running S σ :=
  match s.made.standings[g]?, signal with
  | some (.suspended x), signal => answer K g s (B.run x signal s.world)
  | some (.unstarted x), .send .null => answer K g s (B.run x (.send .null) s.world)
  | some (.unstarted _), .send _ =>
    let (e, s) := (Running.surroundings K).raise ValueFault.notStarted.body s
    (.raised e, s)
  | some (.unstarted _), .throw e => answer K g s (.raised e, s.world)
  | _, .send _ => (.returned .null, s)
  | _, .throw e => (.raised e, s)

/-- What comes of the exception by which a computation is closed. -/
def afterClosing (reply : Reply) (s : Running S σ) : Option Exn × Running S σ :=
  match reply with
  | .returned _ => (none, s)
  | .raised e => (if e.kind.isA .closing then none else some e, s)
  | .yielded _ =>
    let (e, s) := (Running.surroundings K).raise ValueFault.ignoredClosing.body s
    (some e, s)

/-- Closes a computation. -/
def closeAt (g : Nat) (_because : Exn) (s : Running S σ) : Option Exn × Running S σ :=
  match s.made.standings[g]? with
  | some (.suspended x) =>
    let (e, s) := (Running.surroundings K).raise (.plain .closing []) s
    let (reply, s) := answer K g s (B.run x (.throw e) s.world)
    afterClosing K reply s
  | some (.unstarted _) => (none, s.stand g .ended)
  | _ => (none, s)

/-- Bodies in a world. -/
def host : Host (Running S σ) :=
  { Running.surroundings K with resume := B.resumeAt K, close := B.closeAt K }

variable {B K} in
theorem keeps_host {I : Running S σ → Prop} (h : (Running.surroundings K).Keeps I) :
    (B.host K).Keeps I :=
  ⟨h.call, h.start, h.wake, h.fresh, h.blame, h.drain⟩

/-! ## Stacks of computations -/

/-- A computation is suspended. -/
def Waits (c : Computations S) (g : Nat) : Prop := ∃ x, c.standings[g]? = some (.suspended x)

/-- A computation can take what it is resumed with, and goes on from there. -/
inductive Poised (c : Computations S) (g : Nat) (x : S) : Signal → Prop
  | suspended (h : c.standings[g]? = some (.suspended x)) (signal : Signal) : Poised c g x signal
  | unstarted (h : c.standings[g]? = some (.unstarted x)) : Poised c g x (.send .null)

/-- A stack of different computations, all of which wait. -/
structure Resting (c : Computations S) (active : List Nat) : Prop where
  distinct : active.Nodup
  waits : ∀ g ∈ active, Waits c g

/-- A stack of different computations, innermost first, and what the innermost is resumed with. -/
inductive Lined (c : Computations S) : List Nat → Signal → Prop
  | intro {g : Nat} {outer : List Nat} {x : S} {signal : Signal} (poised : Poised c g x signal)
      (inner : g ∉ outer) (rests : Resting c outer) : Lined c (g :: outer) signal

variable {c c' : Computations S} {g h : Nat} {outer : List Nat} {signal : Signal}

theorem Lined.exists_cons {active : List Nat} (lined : Lined c active signal) :
    ∃ g outer, active = g :: outer := by
  cases lined with
  | @intro g outer _ _ _ _ _ => exact ⟨g, outer, rfl⟩

theorem Resting.tail (rests : Resting c (g :: outer)) : g ∉ outer ∧ Resting c outer :=
  have hdistinct := List.nodup_cons.1 rests.distinct
  ⟨hdistinct.1, hdistinct.2, fun h hh => rests.waits h (List.mem_cons_of_mem _ hh)⟩

/-- Anything can be sent or thrown into the innermost of a stack of computations that wait. -/
theorem Resting.lined (rests : Resting c (g :: outer)) (signal : Signal) :
    Lined c (g :: outer) signal :=
  have ⟨_, hx⟩ := rests.waits g (List.mem_cons_self ..)
  .intro (.suspended hx signal) rests.tail.1 rests.tail.2

/-- All computations but one stand where they stood. -/
structure Untouched (g : Nat) (c c' : Computations S) : Prop where
  others : ∀ h standing, h ≠ g → c.standings[h]? = some standing →
    c'.standings[h]? = some standing

theorem Untouched.refl (g : Nat) (c : Computations S) : Untouched g c c := ⟨fun _ _ _ hs => hs⟩

theorem Untouched.trans {c'' : Computations S} (first : Untouched g c c')
    (second : Untouched g c' c'') : Untouched g c c'' :=
  ⟨fun h standing hne hs => second.others h standing hne (first.others h standing hne hs)⟩

theorem untouched_stand (c : Computations S) (g : Nat) (standing : Standing S) :
    Untouched g c (c.stand g standing) :=
  ⟨fun _ _ hne hs => (List.getElem?_set_ne hne.symm).trans hs⟩

theorem untouched_make (c : Computations S) (g : Nat) (x : S) : Untouched g c (c.make x) :=
  ⟨fun _ _ _ hs => (List.getElem?_append_left (List.getElem?_eq_some_iff.1 hs).1).trans hs⟩

/-- Computations that wait go on waiting while another one is moved. -/
theorem Resting.untouched (rests : Resting c outer) (inner : g ∉ outer)
    (h : Untouched g c c') : Resting c' outer := by
  refine ⟨rests.distinct, fun k hk => ?_⟩
  obtain ⟨x, hx⟩ := rests.waits k hk
  exact ⟨x, h.others k _ (ne_of_mem_of_not_mem hk inner) hx⟩

/-- A computation that has gone on and waits again. -/
theorem Resting.suspend (rests : Resting c outer) (inner : g ∉ outer) (hlt : g < c.standings.length)
    (next : S) : Resting (c.stand g (.suspended next)) (g :: outer) := by
  refine ⟨List.nodup_cons.2 ⟨inner, rests.distinct⟩, fun h hh => ?_⟩
  rcases List.mem_cons.1 hh with rfl | hh
  · exact ⟨next, List.getElem?_set_self hlt⟩
  · exact (rests.untouched inner (untouched_stand ..)).waits h hh

/-- A computation that is made while all others wait. -/
theorem Resting.make (rests : Resting c outer) (inner : S) :
    Lined (c.make inner) (c.standings.length :: outer) (.send .null) := by
  have hnew : c.standings.length ∉ outer := fun hmem => by
    obtain ⟨x, hx⟩ := rests.waits _ hmem
    exact absurd (List.getElem?_eq_some_iff.1 hx).1 (Nat.lt_irrefl _)
  exact .intro (.unstarted List.getElem?_concat_length) hnew
    (rests.untouched hnew (untouched_make ..))

variable {B K} {s : Running S σ} {x : S}

theorem Poised.lt (poised : Poised c g x signal) : g < c.standings.length := by
  cases poised with
  | suspended h _ => exact (List.getElem?_eq_some_iff.1 h).1
  | unstarted h => exact (List.getElem?_eq_some_iff.1 h).1

/-- **A poised computation runs its body.** -/
theorem resume_of_poised (poised : Poised s.made g x signal) :
    (B.host K).resume g signal s = answer K g s (B.run x signal s.world) := by
  show B.resumeAt K g signal s = _
  cases poised with
  | suspended h signal => simp only [resumeAt, h]
  | unstarted h => simp only [resumeAt, h]

/-- What a body that raises is answered with. -/
theorem answer_raised (g : Nat) (s : Running S σ) (e : Exn) (world : σ) :
    ∃ surfaced, (answer K g s (.raised e, world)).1 = (.raised surfaced : Reply) ∧
      Host.settle (answer K g s (.raised e, world)).1 = .raised surfaced ∧
      Surfaces "generator raised StopIteration" e surfaced
        (answer K g s (.raised e, world)).2.causes ∧
      (answer K g s (.raised e, world)).2.made = s.made.stand g .ended := by
  have hsurfaces := Running.surfaces_shield K "generator raised StopIteration" e
    ({ s with world }.stand g .ended)
  exact ⟨_, rfl, Behaviour.settle_raised hsurfaces.isExhausted, hsurfaces,
    (Running.keeps_made K (s.made.stand g .ended)).shield _ e _ rfl⟩

/-! ## Other computations -/

variable (B K)

/-- To make an exception moves no computation. -/
theorem made_raise (body : ExnBody Value) (s : Running S σ) :
    ((B.host K).raise body s).2.made = s.made :=
  (keeps_host (Running.keeps_made K _)).raise _ _ rfl

theorem untouched_answer (g : Nat) (s : Running S σ) (turn : Turn S × σ) :
    Untouched g s.made (answer K g s turn).2.made := by
  rcases turn with ⟨turn, world⟩
  cases turn with
  | returned v => exact untouched_stand ..
  | raised e =>
    obtain ⟨_, _, _, _, hmade⟩ := answer_raised (K := K) g s e world
    rw [hmade]
    exact untouched_stand ..
  | yielded item plain y => exact untouched_stand ..
  | nested inner y => exact (untouched_stand ..).trans (untouched_make ..)

/-- To resume a computation moves no other one. -/
theorem untouched_resume (g : Nat) (signal : Signal) (s : Running S σ) :
    Untouched g s.made ((B.host K).resume g signal s).2.made := by
  show Untouched g s.made (B.resumeAt K g signal s).2.made
  unfold resumeAt
  split
  · exact untouched_answer ..
  · exact untouched_answer ..
  · have hmade := (Running.keeps_made K s.made).raise ValueFault.notStarted.body s rfl
    dsimp only
    rw [hmade]
    exact .refl ..
  · exact untouched_answer ..
  · exact .refl ..
  · exact .refl ..

theorem made_afterClosing (reply : Reply) (s : Running S σ) :
    (afterClosing K reply s).2.made = s.made := by
  cases reply with
  | yielded item => exact (Running.keeps_made K _).raise ValueFault.ignoredClosing.body s rfl
  | _ => rfl

/-- To close a computation moves no other one. -/
theorem untouched_close (g : Nat) (because : Exn) (s : Running S σ) :
    Untouched g s.made ((B.host K).close g because s).2.made := by
  show Untouched g s.made (B.closeAt K g because s).2.made
  unfold closeAt
  split
  · dsimp only
    rw [made_afterClosing]
    have hmade := (Running.keeps_made K s.made).raise (.plain .closing []) s rfl
    have huntouched := untouched_answer (S := S) K g
      ((Running.surroundings K).raise (.plain .closing []) s).2
    rw [hmade] at huntouched
    exact huntouched _
  · exact untouched_stand ..
  · exact .refl ..

end Bodies
end DescribedEffects
