import DescribedEffects.Proofs.EventLoop.Delivery
import DescribedEffects.Proofs.EventLoop.Recording

/-!
# What the driver says of a run

The driver speaks in two places only: it takes note of an exception before it throws it, and
of an item when it has one that is a computation or describes an effect.  Both belong to one
resumption of a computation, so what the driver says can be read off the transcript of the
host, entry by entry (`Act.notes`): a resumption by an exception is one note, its reply is at
most one more, and nothing else that happens to the programs is worth any.

The loop says something of its own now and then, in the name of the resolver.  A step that
resumes no computation adds nothing to the notes of the driver (`driverNotes_of_step`), and a
resumption adds just what its entry in the transcript calls for (`notes_deliver`).  So
the notes mirror the transcript in every state of every run (`logged_of_reaches`), however
deep the computations are nested and however many are driven side by side.
-/

namespace DescribedEffects

/-- The notes of the driver. -/
def driverNotes (notes : List Note) : List Note :=
  notes.filter fun n => n.component == "driver"

/-- What there is to say of a reply: the computation, or the effect, that was yielded. -/
def Reply.notes : Reply → List Note
  | .yielded item =>
    if item.isComputation then [.nested item]
    else
      match Descriptor.parse item with
      | .ok d => [.effect d]
      | .error _ => []
  | .returned _ | .raised _ => []

/-- What there is to say of a resumption: the exception that was thrown and what it led to. -/
def Act.notes : Act → List Note
  | .resumed _ signal reply => EventLoop.signalNotes signal ++ reply.notes
  | _ => []

@[simp] theorem driverNotes_append (a b : List Note) :
    driverNotes (a ++ b) = driverNotes a ++ driverNotes b := List.filter_append ..

/-- An item that is no computation is worth a note if it can be read. -/
theorem Reply.notes_of_plain {item : Value} (h : item.isComputation = false) :
    (Reply.yielded item).notes =
      match Descriptor.parse item with
      | .ok d => [.effect d]
      | .error _ => [] := by
  simp [Reply.notes, h]

namespace EventLoop

variable {σ : Type} {H : Host σ} {context : Value}

@[simp] theorem driverNotes_signalNotes (signal : Signal) :
    driverNotes (signalNotes signal) = signalNotes signal := by
  cases signal <;> rfl

/-! ## What is done in silence -/

section

variable (s : State σ) (t : Nat) (goal : Goal)

@[simp] theorem notes_subscribe (p : Nat) (j : Job) : (s.subscribe p j).notes = s.notes := by
  rw [State.subscribe_frame]

@[simp] theorem notes_complete (p : Nat) (o : Outcome) : (s.complete p o).notes = s.notes := by
  rw [State.complete_frame]

@[simp] theorem notes_claim (i : Nat) : (s.claim i).2.notes = s.notes := by
  rw [State.claim_frame]

@[simp] theorem notes_setPhase (k : Nat) (phase : Phase) :
    (s.setPhase k phase).notes = s.notes := by
  rw [State.setPhase_frame]

@[simp] theorem notes_block (p : Nat) : (block s t goal p).notes = s.notes := by
  unfold block
  split
  · rfl
  · exact (notes_setPhase ..).trans (notes_subscribe ..)

@[simp] theorem notes_advance (k : Nat) (progress : Progress) :
    (advance s t goal k progress).notes = s.notes := by
  unfold advance
  split
  · rfl
  · exact notes_setPhase ..
  · exact notes_setPhase ..

@[simp] theorem notes_refuseForeign : (refuseForeign H s t goal).notes = s.notes :=
  (notes_setPhase ..).trans (notes_complete ..)

@[simp] theorem notes_await (v : Value) : (await H s t goal v).notes = s.notes := by
  unfold await
  split
  · exact (notes_advance ..).trans (notes_grantAll _)
  · split
    · exact notes_block ..
    · rfl
    · exact notes_refuseForeign ..
  all_goals rfl

@[simp] theorem notes_launch (group : Nat) (errands : List Errand) :
    (launch s group errands).2.notes = s.notes := by
  induction errands generalizing s with
  | nil => rfl
  | cons errand rest ih => exact (ih _).trans (notes_subscribe ..)

@[simp] theorem notes_gather (errands : List Errand) :
    (gather s t goal errands).notes = s.notes := by
  cases h : errands.isEmpty with
  | true => simp only [gather, h]; rfl
  | false =>
    rw [gather_of_errands h]
    exact (notes_block ..).trans (notes_launch ..)

@[simp] theorem notes_acceptDirect (o : Outcome) :
    (acceptDirect H s t goal o).notes = s.notes := by
  unfold acceptDirect
  split
  · rfl
  · split
    · exact notes_await ..
    · rfl

@[simp] theorem notes_performDirect (f : Value) (d : Descriptor) :
    (performDirect H s t goal f d).notes = s.notes :=
  (notes_acceptDirect ..).trans (notes_grantAll _)

@[simp] theorem notes_finish (report : Option Report) (o : Outcome) :
    (finish s t report o).notes = s.notes := by
  unfold finish
  split
  · exact (notes_complete ..).trans (notes_setPhase ..)
  · rfl

@[simp] theorem notes_finishDrive (j : Journey) (captured : Bool) (o : Outcome) :
    (finishDrive s t j captured o).notes = s.notes := notes_finish ..

@[simp] theorem notes_deliverRecorded (j : Journey) (captured : Bool) (signal : Signal) :
    (deliverRecorded H s t j captured signal).notes = s.notes := by
  unfold deliverRecorded
  split <;> rfl

@[simp] theorem notes_answerDrive (j : Journey) (captured : Bool) (o : Outcome) :
    (answerDrive H s t j captured o).notes = s.notes := by
  unfold answerDrive
  split
  · exact notes_deliverRecorded ..
  · split
    · exact notes_deliverRecorded ..
    · exact notes_finishDrive ..

@[simp] theorem notes_leave (j : Journey) (captured : Bool) (o : Outcome) :
    (leave s t j captured o).notes = s.notes := by
  unfold leave
  split
  · exact notes_finishDrive ..
  · split
    · rfl
    · split
      · rfl
      · exact notes_finishDrive ..

@[simp] theorem notes_begin (errand : Errand) : (begin H s t errand).notes = s.notes := by
  unfold begin
  split
  · split <;> rfl
  · exact notes_await ..
  · unfold beginDrive
    split
    · rfl
    · exact notes_finishDrive ..
  · exact (notes_gather ..).trans (notes_grantAll s)

@[simp] theorem notes_stepTask : (stepTask H s t).notes = s.notes := by
  unfold stepTask
  split
  · exact (notes_begin ..).trans (notes_setPhase ..)
  · exact (notes_advance ..).trans ((notes_grantAll _).trans (notes_setPhase ..))
  · split
    · exact notes_setPhase ..
    · rfl
  · rfl

@[simp] theorem notes_notice (group member : Nat) : (notice s group member).notes = s.notes := by
  unfold notice
  split
  · exact notes_complete ..
  · dsimp only
    split
    · split
      · exact notes_complete ..
      · rfl
    · rfl
  · rfl

@[simp] theorem notes_settle (effect : Nat) (error value : Value) :
    (settle H s effect error value).notes = s.notes := by
  rcases settle_cases (H := H) s effect error value with hu | ⟨pending, host, o, -, -, hu⟩
  · rw [hu]
  · rw [hu]
    exact notes_complete ..

@[simp] theorem notes_runJob (j : Job) : (runJob H s j).notes = s.notes := by
  cases j with
  | step t => exact notes_stepTask s t
  | notice group member => exact notes_notice s group member
  | settle effect error value => exact notes_settle s effect error value
  | fulfil p o => exact notes_complete s p o
  | invoke f args => exact notes_grantAll _
  | stop => rfl

/-! ## What the resolver says -/

@[simp] theorem driverNotes_acceptCallback (effect p : Nat) (d : Descriptor) (o : Outcome) :
    driverNotes (acceptCallback H s t goal effect p d o).notes = driverNotes s.notes := by
  unfold acceptCallback
  split
  · next e =>
    split
    · dsimp only
      split
      · exact congrArg driverNotes (notes_claim s effect)
      · rw [notes_block, State.note, driverNotes_append, notes_claim]
        exact List.append_nil _
    · rfl
  · split
    · exact congrArg driverNotes (notes_block ..)
    · exact congrArg driverNotes (notes_block ..)

@[simp] theorem driverNotes_performCallback (f : Value) (d : Descriptor) :
    driverNotes (performCallback H s t goal f d).notes = driverNotes s.notes := by
  rw [performCallback_eq]
  exact (driverNotes_acceptCallback ..).trans (congrArg driverNotes (notes_grantAll _))

@[simp] theorem driverNotes_perform (d : Descriptor) :
    driverNotes (perform H context s t goal d).notes = driverNotes s.notes := by
  have hresolver : ∀ how, driverNotes (s.note (.resolving d how)).notes = driverNotes s.notes :=
    fun how => (driverNotes_append ..).trans (List.append_nil _)
  unfold perform
  split
  · rw [notes_gather]
    exact (driverNotes_append ..).trans (List.append_nil _)
  · split
    · rfl
    · dsimp only
      split
      · exact hresolver _
      · rw [notes_performDirect]
        exact hresolver _
      · rw [driverNotes_performCallback]
        exact hresolver _

@[simp] theorem driverNotes_finishWatch (effect : Nat) (o : Outcome) :
    driverNotes (finishWatch s t effect o).notes = driverNotes s.notes := by
  unfold finishWatch
  split
  · rw [notes_finish]
  · split
    · split
      · rw [notes_finish]
      · dsimp only
        rw [notes_finish]
        split
        · rw [notes_complete, notes_claim]
        · rw [State.note, driverNotes_append, notes_claim]
          exact List.append_nil _
    · rw [notes_finish]

end

/-! ## What the driver says -/

/-- **A step that resumes no computation** adds nothing to the notes of the driver. -/
theorem driverNotes_of_step {s u : State σ}
    (quiet : ∀ t j captured signal, s.control ≠ .deliver t j captured signal)
    (h : step H context s = .next u) : driverNotes u.notes = driverNotes s.notes := by
  cases hc : s.control with
  | idle =>
    rcases step_idle_cases hc h with ⟨n, j, rest, -, -, rfl⟩ | ⟨n, rfl⟩ | ⟨timer, later, -, -, rfl⟩
    · exact congrArg driverNotes (notes_runJob ..)
    · rfl
    · rfl
  | perform t goal d =>
    simp only [step, hc] at h
    cases h
    exact driverNotes_perform ..
  | outcome t goal o =>
    simp only [step, hc] at h
    cases goal with
    | answer =>
      cases h
      exact congrArg driverNotes (notes_finish ..)
    | watch effect =>
      cases h
      exact driverNotes_finishWatch ..
    | drive j captured =>
      cases h
      exact congrArg driverNotes (notes_answerDrive ..)
  | deliver t j captured signal => exact absurd hc (quiet t j captured signal)

/-- The note of an item that was yielded. -/
theorem notes_receive (s : State σ) (t : Nat) (j : Journey) (captured : Bool) (item : Value) :
    (receive H s t j captured item).notes = s.notes ++ (Reply.yielded item).notes := by
  cases hitem : item.isComputation with
  | true =>
    cases item with
    | computation g => rfl
    | _ => cases hitem
  | false =>
    rw [receive_of_plain _ _ _ _ hitem, Reply.notes_of_plain hitem]
    cases Descriptor.parse item with
    | error m => exact (List.append_nil _).symm
    | ok d => rfl

theorem notes_resuming (s : State σ) (g : Nat) (signal : Signal) :
    (s.resuming H g signal).notes = s.notes ++ signalNotes signal := by
  unfold State.resuming
  rw [notes_grantAll]
  cases signal with
  | send v => exact (List.append_nil _).symm
  | throw e => rfl

/-- **A resumption is noted as it happened**: the exception that is thrown, and then what was
yielded. -/
theorem notes_deliver (s : State σ) (t : Nat) {j : Journey} {g : Nat} {outer : List Nat}
    (active : j.active = g :: outer) (captured : Bool) (signal : Signal) :
    (deliver H s t j captured signal).notes =
      s.notes ++ Act.notes (.resumed g signal (H.resume g signal s.host).1) := by
  rw [deliver_of_active s active]
  unfold Act.notes
  rw [← List.append_assoc, ← notes_resuming (H := H) s g signal]
  cases (H.resume g signal s.host).1 with
  | yielded item => exact notes_receive ..
  | returned v => exact (notes_leave ..).trans (List.append_nil _).symm
  | raised e =>
    cases he : e.isExhausted with
    | true =>
      rw [show Host.settle (.raised e) = .returned e.returned from if_pos he]
      exact (notes_leave ..).trans (List.append_nil _).symm
    | false =>
      rw [show Host.settle (.raised e) = .raised e from if_neg (by simp [he])]
      exact (notes_leave ..).trans (List.append_nil _).symm

/-- What the driver says of a reply and of a resumption is said in its own name. -/
theorem driverNotes_actNotes (act : Act) : driverNotes act.notes = act.notes := by
  cases act with
  | resumed g signal reply =>
    have hreply : driverNotes reply.notes = reply.notes := by
      cases reply with
      | yielded item =>
        dsimp only [Reply.notes]
        split
        · rfl
        · split <;> rfl
      | _ => rfl
    rw [Act.notes, driverNotes_append, driverNotes_signalNotes, hreply]
  | _ => rfl

/-! ## The log and the transcript -/

/-- The driver has said what there is to say of the transcript, and nothing else. -/
def Logged (s : State (σ × List Act)) : Prop :=
  driverNotes s.notes = s.host.2.flatMap Act.notes

/-- A question about anything but the resumption of a computation is not worth a note. -/
theorem keeps_notes (notes : List Note) :
    H.recorded.Keeps fun s => s.2.flatMap Act.notes = notes where
  call _ _ _ h := by simp [Host.recorded, Act.notes, h]
  start _ _ h := by simp [Host.recorded, Act.notes, h]
  wake _ _ h := by simp [Host.recorded, Act.notes, h]
  fresh _ h := h
  blame _ _ _ h := h
  drain _ h := by simp [Host.recorded, Act.notes, h]

variable {s u : State (σ × List Act)}

/-- What follows a resumption resumes nothing itself. -/
theorem actNotes_deliver (s : State (σ × List Act)) (t : Nat) {j : Journey} {g : Nat}
    {outer : List Nat} (active : j.active = g :: outer) (captured : Bool) (signal : Signal) :
    (deliver H.recorded s t j captured signal).host.2.flatMap Act.notes =
      s.host.2.flatMap Act.notes ++ Act.notes (.resumed g signal (H.resume g signal s.host.1).1) := by
  let act : Act := .resumed g signal (H.resume g signal s.host.1).1
  let notes := s.host.2.flatMap Act.notes ++ act.notes
  have hresumed : (s.resuming H.recorded g signal).host.2.flatMap Act.notes = notes := by
    rw [State.resuming, host_grantAll]
    exact (keeps_notes notes).drain _ (by simp [Host.recorded, act, notes])
  have hkept : ∀ {t : Nat} {u : State (σ × List Act)},
      FreeChanges H.recorded.muted t (s.resuming H.recorded g signal) u →
        u.host.2.flatMap Act.notes = notes := fun hchanges =>
    hchanges.kept (P := fun u => u.host.2.flatMap Act.notes = notes)
      (kept_of_change (keeps_notes notes)) hresumed
  rw [deliver_of_active s active]
  split
  · exact hkept (changes_receive (H := H.recorded.muted) (t := t) _ j captured _)
  · exact hkept (changes_leave (t := t) _ (fun _ _ => trivial) j captured _)
  · exact hkept (changes_leave (t := t) _ (fun _ _ => trivial) j captured _)

/-- **Every step keeps the log.** -/
theorem logged_of_step (hs : Logged s) (h : step H.recorded context s = .next u) : Logged u := by
  by_cases hc : ∃ t j captured signal, s.control = .deliver t j captured signal
  · obtain ⟨t, j, captured, signal, hc⟩ := hc
    obtain rfl := Transition.next.inj (h.symm.trans (step_of_deliver _ context hc))
    cases hactive : j.active with
    | nil =>
      simp only [Logged, deliver, hactive, finishDrive, notes_finish, host_finish]
      exact hs
    | cons g outer =>
      rw [Logged, notes_deliver _ t hactive, actNotes_deliver _ t hactive, driverNotes_append,
        driverNotes_actNotes]
      exact congrArg (· ++ _) hs
  · have quiet : ∀ t j captured signal, s.control ≠ .deliver t j captured signal :=
      fun t j captured signal h => hc ⟨t, j, captured, signal, h⟩
    exact (driverNotes_of_step quiet h).trans
      (hs.trans (kept_of_step (keeps_notes _) quiet h rfl).symm)

/-- **In every state of every run** the driver has said what there is to say. -/
theorem logged_of_reaches {host : σ} {run : Nat} {earlier : List (Nat × Outcome)}
    {errand : Errand} (h : Transition.Reaches (step H.recorded context)
      (State.start (host, []) run earlier errand) s) : Logged s :=
  h.invariant (P := Logged) (fun _ _ => logged_of_step) rfl

end EventLoop
end DescribedEffects
