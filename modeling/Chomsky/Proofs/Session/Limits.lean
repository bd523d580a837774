import Chomsky.Proofs.Session.Course

/-!
# Sessions with limited sinks

What a step of a session fails with depends on the steps before it, which have filled
the sinks (`SessionStep.faultAfter?`). A session whose steps all go well is `Smooth`.
Carrying out steps that go well leaves sinks that hold what these steps add to them
(`perform_append`), so that the first step to fail is the one that ends the session,
with the prompts of the steps before it (`session_fails_at_first_fault`).
-/

namespace Chomsky

/-- How many bytes of replies and of prompts there is room for; `none` stands for any
number. -/
structure SessionLimits where
  /-- The limit of the replies. -/
  replies : Option Nat
  /-- The limit of the prompts. -/
  prompts : Option Nat
deriving DecidableEq, Repr

/-- Whether a text has more bytes than a limit allows. -/
def exceeds (limit : Option Nat) (text : String) : Bool :=
  limit.any (· < text.utf8ByteSize)

namespace Sink

variable {capacity : Option Nat} {text : String}

/-- A sink that has taken a text. -/
def holding (capacity : Option Nat) (text : String) : Sink :=
  ⟨capacity.map (· - text.utf8ByteSize), text⟩

/-- At first a sink holds nothing. -/
theorem holding_empty (capacity : Option Nat) : holding capacity "" = ofCapacity capacity := by
  cases capacity <;> rfl

/-- A sink takes more as long as all that it holds then is within its limit. -/
theorem write?_holding (within : exceeds capacity text = false) (more : String) :
    (holding capacity text).write? more =
      if exceeds capacity (text ++ more) then none else some (holding capacity (text ++ more)) := by
  cases capacity with
  | none => rfl
  | some limit =>
      have fits : text.utf8ByteSize ≤ limit := by simpa [exceeds] using within
      by_cases beyond : limit < text.utf8ByteSize + more.utf8ByteSize
      · have full : ¬ more.utf8ByteSize ≤ limit - text.utf8ByteSize := by omega
        simp [holding, write?, exceeds, beyond, full]
      · have room : more.utf8ByteSize ≤ limit - text.utf8ByteSize := by omega
        simp [holding, write?, exceeds, beyond, room, Nat.sub_sub]

end Sink

namespace SessionStep

/-- What steps add to the replies. -/
def saidIn (steps : List SessionStep) : String :=
  String.join (steps.map said)

/-- What steps add to the prompts. -/
def askedIn (steps : List SessionStep) : String :=
  String.join (steps.map asked)

/-- What a step fails with when it comes after others that have gone well, if it fails:
a line that cannot be decoded always does, a prompt or a reply when all of its kind
together get longer than the limit. -/
def faultAfter? (limits : SessionLimits) (done : List SessionStep) :
    SessionStep → Option SessionFault
  | ask => if exceeds limits.prompts (askedIn done ++ promptText) then some .sinkFull else none
  | unreadable => some .notUtf8
  | say text => if exceeds limits.replies (saidIn done ++ text) then some .sinkFull else none

/-- No step fails after those before it. -/
def Smooth (limits : SessionLimits) (steps : List SessionStep) : Prop :=
  ∀ done step later, steps = done ++ step :: later → step.faultAfter? limits done = none

variable {limits : SessionLimits} {done steps : List SessionStep} {step : SessionStep}

@[simp] theorem saidIn_concat (done : List SessionStep) (step : SessionStep) :
    saidIn (done ++ [step]) = saidIn done ++ step.said := by
  simp [saidIn, String.join_append]

@[simp] theorem askedIn_concat (done : List SessionStep) (step : SessionStep) :
    askedIn (done ++ [step]) = askedIn done ++ step.asked := by
  simp [askedIn, String.join_append]

/-- Without steps nothing fails. -/
theorem smooth_nil (limits : SessionLimits) : Smooth limits [] := by
  intro done step later split
  simp at split

/-- Steps go well when all but the last one do and then the last one does. -/
theorem smooth_concat_iff :
    Smooth limits (done ++ [step]) ↔ Smooth limits done ∧ step.faultAfter? limits done = none := by
  constructor
  · intro smooth
    constructor
    · intro before here later split
      apply smooth before here (later ++ [step])
      rw [split, List.append_assoc, List.cons_append]
    · exact smooth done step [] rfl
  · rintro ⟨smooth, last⟩ before here later split
    rcases List.eq_nil_or_concat later with rfl | ⟨front, final, rfl⟩
    · obtain ⟨rfl, same⟩ := List.append_inj' split rfl
      obtain rfl := List.singleton_inj.mp same
      exact last
    · rw [List.concat_eq_append, ← List.cons_append, ← List.append_assoc] at split
      exact smooth before here front (List.append_inj' split rfl).1

/-- Steps that do not all go well have a first one that fails. -/
theorem exists_first_fault (fails : ¬ Smooth limits steps) :
    ∃ done step later fault, steps = done ++ step :: later ∧ Smooth limits done ∧
      step.faultAfter? limits done = some fault := by
  -- From the back, because what a step fails with depends on all steps before it.
  induction steps using List.reverseRecOn with
  | nil => exact absurd (smooth_nil limits) fails
  | append_singleton front last inductionHypothesis =>
      by_cases smooth : Smooth limits front
      · cases failure : last.faultAfter? limits front with
        | none => exact absurd (smooth_concat_iff.mpr ⟨smooth, failure⟩) fails
        | some fault => exact ⟨front, last, [], fault, rfl, smooth, failure⟩
      · obtain ⟨done, step, later, fault, rfl, before, failure⟩ := inductionHypothesis smooth
        refine ⟨done, step, later ++ [last], fault, ?_, before, failure⟩
        rw [List.append_assoc, List.cons_append]

/-- What steps add is within the limits. -/
def Within (limits : SessionLimits) (steps : List SessionStep) : Prop :=
  exceeds limits.replies (saidIn steps) = false ∧ exceeds limits.prompts (askedIn steps) = false

/-- A step that goes well stays within the limits. -/
theorem Within.concat (within : Within limits done)
    (well : step.faultAfter? limits done = none) : Within limits (done ++ [step]) := by
  rw [Within, saidIn_concat, askedIn_concat]
  cases step with
  | ask => exact ⟨by simpa [said] using within.1, by simpa [faultAfter?, asked] using well⟩
  | unreadable => cases well
  | say text => exact ⟨by simpa [faultAfter?, said] using well, by simpa [asked] using within.2⟩

/-- Steps that go well stay within the limits. -/
theorem Smooth.within (smooth : Smooth limits steps) : Within limits steps := by
  induction steps using List.reverseRecOn with
  | nil =>
      obtain ⟨replies, prompts⟩ := limits
      cases replies <;> cases prompts <;> exact ⟨rfl, rfl⟩
  | append_singleton front last inductionHypothesis =>
      rw [smooth_concat_iff] at smooth
      exact (inductionHypothesis smooth.1).concat smooth.2

/-- What goes well with limits goes well without. -/
theorem Smooth.unlimited (smooth : Smooth limits steps) : Smooth ⟨none, none⟩ steps := by
  intro done step later split
  have well := smooth done step later split
  cases step with
  | ask => rfl
  | unreadable => cases well
  | say text => rfl

end SessionStep

namespace Transcript

open SessionStep

variable {limits : SessionLimits} {done steps : List SessionStep}

/-- The transcript of a session in which so many steps have gone well, ended by a fault
or by nothing. -/
def after (limits : SessionLimits) (done : List SessionStep) (fault : Option SessionFault) :
    Transcript :=
  ⟨.holding limits.replies (saidIn done), .holding limits.prompts (askedIn done), fault⟩

/-- A step fails, or it goes well and the next one is carried out. -/
theorem perform_cons (within : Within limits done) (step : SessionStep)
    (later : List SessionStep) :
    perform (.holding limits.replies (saidIn done)) (.holding limits.prompts (askedIn done))
        (step :: later) =
      match step.faultAfter? limits done with
      | none => perform (.holding limits.replies (saidIn (done ++ [step])))
          (.holding limits.prompts (askedIn (done ++ [step]))) later
      | some fault => after limits done (some fault) := by
  rw [saidIn_concat, askedIn_concat]
  cases step with
  | ask =>
      rw [perform, Sink.write?_holding within.2, faultAfter?]
      cases exceeds limits.prompts (askedIn done ++ promptText) <;> simp [said, asked, after]
  | unreadable => rfl
  | say text =>
      rw [perform, Sink.write?_holding within.1, faultAfter?]
      cases exceeds limits.replies (saidIn done ++ text) <;> simp [said, asked, after]

/-- Steps that go well leave sinks that hold what they add. -/
theorem perform_append (smooth : Smooth limits done) (later : List SessionStep) :
    perform (.ofCapacity limits.replies) (.ofCapacity limits.prompts) (done ++ later) =
      perform (.holding limits.replies (saidIn done)) (.holding limits.prompts (askedIn done))
        later := by
  induction done using List.reverseRecOn generalizing later with
  | nil =>
      rw [← Sink.holding_empty, ← Sink.holding_empty]
      rfl
  | append_singleton front last inductionHypothesis =>
      rw [smooth_concat_iff] at smooth
      rw [List.append_assoc, List.singleton_append, inductionHypothesis smooth.1,
        perform_cons smooth.1.within, smooth.2]

/-- A session that goes well is carried out to its end. -/
theorem perform_of_smooth (smooth : Smooth limits steps) :
    perform (.ofCapacity limits.replies) (.ofCapacity limits.prompts) steps =
      after limits steps none := by
  have whole := perform_append smooth []
  rwa [List.append_nil] at whole

/-- A session ends at the first step that fails. -/
theorem perform_of_fault {step : SessionStep} {later : List SessionStep} {fault : SessionFault}
    (smooth : Smooth limits done) (fails : step.faultAfter? limits done = some fault) :
    perform (.ofCapacity limits.replies) (.ofCapacity limits.prompts) (done ++ step :: later) =
      after limits done (some fault) := by
  rw [perform_append smooth, perform_cons smooth.within, fails]

/-- Carrying out steps succeeds exactly when all of them go well. -/
theorem fault_perform_eq_none_iff :
    (perform (.ofCapacity limits.replies) (.ofCapacity limits.prompts) steps).fault = none ↔
      Smooth limits steps := by
  constructor
  · intro succeeds
    by_contra fails
    obtain ⟨done, step, later, fault, rfl, smooth, failure⟩ := exists_first_fault fails
    rw [perform_of_fault smooth failure] at succeeds
    cases succeeds
  · intro smooth
    rw [perform_of_smooth smooth]
    rfl

/-- Carrying out steps ends with the fault of the first one that fails, after the
prompts of those before it. -/
theorem fault_perform_eq_some_iff {fault : SessionFault} :
    (perform (.ofCapacity limits.replies) (.ofCapacity limits.prompts) steps).fault =
        some fault ↔
      ∃ done step later, steps = done ++ step :: later ∧ Smooth limits done ∧
        step.faultAfter? limits done = some fault ∧
        (perform (.ofCapacity limits.replies) (.ofCapacity limits.prompts)
          steps).prompts.written = askedIn done := by
  constructor
  · intro failed
    have fails : ¬ Smooth limits steps := by
      rw [← fault_perform_eq_none_iff, failed]
      exact Option.some_ne_none fault
    obtain ⟨done, step, later, other, rfl, smooth, failure⟩ := exists_first_fault fails
    rw [perform_of_fault smooth failure] at failed ⊢
    obtain rfl := Option.some.inj failed
    exact ⟨done, step, later, rfl, smooth, failure, rfl⟩
  · rintro ⟨done, step, later, rfl, smooth, failure, _⟩
    rw [perform_of_fault smooth failure]
    rfl

/-- A session succeeds exactly when every step of it goes well: no prompt and no reply
goes beyond the limit of its sink, and every line that is read can be decoded. Then it
leaves what it would leave without limits. Otherwise it ends with the fault of the
first step that fails, after the prompts of the steps before that one. -/
theorem session_fails_at_first_fault (grammar : Grammar) (showCount : Bool)
    (limits : SessionLimits) (source : Bytes) :
    let steps := SessionStep.ofLines grammar showCount (lines source)
    let transcript := ofSource grammar showCount (.ofCapacity limits.replies)
      (.ofCapacity limits.prompts) source
    let unlimited := ofSource grammar showCount (.ofCapacity none) (.ofCapacity none) source
    (transcript.fault = none ↔ Smooth limits steps) ∧
    (transcript.fault = none → unlimited.fault = none ∧
      transcript.replies.written = unlimited.replies.written ∧
      transcript.prompts.written = unlimited.prompts.written) ∧
    ∀ fault, transcript.fault = some fault ↔
      ∃ done step later, steps = done ++ step :: later ∧ Smooth limits done ∧
        step.faultAfter? limits done = some fault ∧
        transcript.prompts.written = SessionStep.askedIn done := by
  simp only [ofSource, SessionStep.plan_eq_ofLines]
  refine ⟨fault_perform_eq_none_iff, fun succeeds => ?_, fun fault => fault_perform_eq_some_iff⟩
  have smooth := fault_perform_eq_none_iff.mp succeeds
  have unlimited := perform_of_smooth smooth.unlimited
  rw [perform_of_smooth smooth, unlimited]
  exact ⟨rfl, rfl, rfl⟩

/-- A reply to the first line and the farewell have 65 bytes together. With one byte
less, the session fails at the farewell, after both of its prompts; what stands behind
the line that asks for the end makes no difference, although it is no text. -/
theorem session_fails_at_first_fault_farewell :
    let grammar := Grammar.ofRules [⟨"S", [.terminal 'a']⟩]
    let source := encode "b\nexit\n" ++ [0xFF]
    let roomy := ofSource grammar false (.ofCapacity (some 65)) (.ofCapacity (some 104)) source
    let tight := ofSource grammar false (.ofCapacity (some 64)) (.ofCapacity (some 104)) source
    roomy.fault = none ∧
      roomy.replies.written = Outcome.rejection ++ farewell ∧
      tight.fault = some .sinkFull ∧
      ∃ done step later,
        SessionStep.ofLines grammar false (lines source) = done ++ step :: later ∧
        Smooth ⟨some 64, some 104⟩ done ∧
        step.faultAfter? ⟨some 64, some 104⟩ done = some .sinkFull ∧
        tight.prompts.written = SessionStep.askedIn done := by
  intro grammar source roomy tight
  have whole := session_fails_at_first_fault grammar false ⟨some 65, some 104⟩ source
  have cut := session_fails_at_first_fault grammar false ⟨some 64, some 104⟩ source
  have succeeds : roomy.fault = none := by
    simp only [roomy, ofSource, SessionStep.plan_eq_ofLines]
    decide
  have fails : tight.fault = some .sinkFull := by
    simp only [tight, ofSource, SessionStep.plan_eq_ofLines]
    decide
  refine ⟨succeeds, ?_, fails, (cut.2.2 .sinkFull).mp fails⟩
  refine (whole.2.1 succeeds).2.1.trans ?_
  simp only [ofSource, SessionStep.plan_eq_ofLines]
  decide

end Transcript

end Chomsky
