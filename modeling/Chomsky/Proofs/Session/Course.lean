import Chomsky.Proofs.Text.Lines
import Chomsky.Session.Transcript

/-!
# The course of a session

The steps of a session are those of the lines of its input (`plan_eq_ofLines`).
Over lines that can all be decoded they are a prompt and a report for each line in
front of the first one that asks for the end, then a last prompt, and a farewell if
there is such a line (`ofLines_map_some`). Sinks without a limit take everything
(`perform_unbounded`), so that a session over a text replies to these lines and no
others (`replies_until_exit`).
-/

namespace Chomsky

variable {grammar : Grammar} {showCount : Bool}

/-- The reports on texts, one after the other. -/
def reportsOn (grammar : Grammar) (showCount : Bool) (texts : List String) : String :=
  String.join (texts.map fun text => (Outcome.ofText grammar showCount text).report)

namespace SessionStep

/-- The steps of a session over lines, of which `none` stands for one that cannot be
decoded. -/
def ofLines (grammar : Grammar) (showCount : Bool) : List (Option String) → List SessionStep
  | [] => [ask]
  | none :: _ => [ask, unreadable]
  | some line :: rest =>
      let reply := Reply.toLine grammar showCount line
      if reply.goesOn then ask :: say reply.text :: ofLines grammar showCount rest
      else [ask, say reply.text]

/-- The steps of a session are those of the lines of its input. -/
theorem plan_eq_ofLines (input : Bytes) :
    plan grammar showCount input = ofLines grammar showCount (lines input) := by
  -- The lines are taken off the input one by one on either side.
  rw [lines_eq_nextLine]
  fun_induction plan grammar showCount input with
  | case1 input ended => rw [ended, ofLines]
  | case2 input unreadable => rw [unreadable, ofLines]
  | case3 input text rest read reply goesOn inductionHypothesis =>
      rw [inductionHypothesis, ← lines_eq_nextLine, read, ofLines, if_pos goesOn]
  | case4 input text rest read reply goesOn => rw [read, ofLines, if_neg goesOn]

/-- No line is read after one that asks for the end. -/
theorem ofLines_append {entered : List (Option String)}
    (asks : ∃ line, some line ∈ entered ∧ isExit line = true) (later : List (Option String)) :
    ofLines grammar showCount (entered ++ later) = ofLines grammar showCount entered := by
  obtain ⟨line, member, exits⟩ := asks
  induction entered with
  | nil => cases member
  | cons first rest inductionHypothesis =>
      cases first with
      -- A line that cannot be decoded ends the session as well.
      | none => rfl
      | some text =>
          rw [List.cons_append, ofLines, ofLines]
          rcases List.mem_cons.mp member with same | inRest
          · have ends : (Reply.toLine grammar showCount text).goesOn = false := by
              rw [← Option.some.inj same, Reply.toLine, if_pos exits]
            rw [ends]
            rfl
          · rw [inductionHypothesis inRest]

/-- What a step adds to the replies. -/
def said : SessionStep → String
  | say text => text
  | _ => ""

/-- What a step adds to the prompts. -/
def asked : SessionStep → String
  | ask => promptText
  | _ => ""

/-- A line that is reported on. -/
def attend (grammar : Grammar) (showCount : Bool) (line : String) : List SessionStep :=
  [ask, say (Outcome.ofText grammar showCount line).report]

/-- Lines are reported on up to the first one that asks for the end. -/
theorem ofLines_map_some (entered : List String) :
    ofLines grammar showCount (entered.map some) =
      (entered.take (entered.findIdx isExit)).flatMap (attend grammar showCount) ++
        ask :: if entered.findIdx isExit < entered.length then [say farewell] else [] := by
  induction entered with
  | nil => rfl
  | cons line rest inductionHypothesis =>
      rw [List.map_cons, ofLines]
      cases exits : isExit line with
      | true => simp [Reply.toLine, exits, List.findIdx_cons]
      | false =>
          simp [Reply.toLine, exits, List.findIdx_cons, inductionHypothesis, attend]

/-- What is said about lines is the reports on them. -/
theorem join_said_attend (entered : List String) :
    String.join ((entered.flatMap (attend grammar showCount)).map said) =
      reportsOn grammar showCount entered := by
  induction entered with
  | nil => rfl
  | cons line rest inductionHypothesis =>
      rw [List.flatMap_cons, List.map_append, String.join_append, inductionHypothesis,
        reportsOn, reportsOn, List.map_cons, String.join_cons]
      simp [attend, said]

/-- There is a prompt for every line that is reported on. -/
theorem join_asked_attend (entered : List String) :
    String.join ((entered.flatMap (attend grammar showCount)).map asked) =
      String.join (List.replicate entered.length promptText) := by
  induction entered with
  | nil => rfl
  | cons line rest inductionHypothesis =>
      rw [List.flatMap_cons, List.map_append, String.join_append, inductionHypothesis,
        List.length_cons, List.replicate_succ, String.join_cons]
      simp [attend, asked]

/-- Lines that are decoded make no step that fails. -/
theorem unreadable_notMem_ofLines (entered : List String) :
    unreadable ∉ ofLines grammar showCount (entered.map some) := by
  rw [ofLines_map_some, List.mem_append, not_or]
  constructor
  · simp [List.mem_flatMap, attend]
  · split <;> simp

end SessionStep

/-- What is said to lines: a report on each in front of the first one that asks for
the end, and a farewell if there is such a line. -/
def repliesTo (grammar : Grammar) (showCount : Bool) (entered : List String) : String :=
  let last := entered.findIdx isExit
  reportsOn grammar showCount (entered.take last) ++
    if last < entered.length then farewell else ""

/-- There are only reports where no line asks for the end. -/
theorem repliesTo_of_goesOn {entered : List String}
    (goesOn : ∀ line ∈ entered, isExit line = false) :
    repliesTo grammar showCount entered = reportsOn grammar showCount entered := by
  have last : entered.findIdx isExit = entered.length := List.findIdx_eq_length.mpr goesOn
  rw [repliesTo, last, List.take_length, if_neg (Nat.lt_irrefl _), String.append_empty]

namespace Transcript

/-- Sinks without a limit take what every step adds to them. -/
theorem perform_unbounded {steps : List SessionStep} (readable : .unreadable ∉ steps)
    (replied prompted : String) :
    perform ⟨none, replied⟩ ⟨none, prompted⟩ steps =
      { replies := ⟨none, replied ++ String.join (steps.map SessionStep.said)⟩
        prompts := ⟨none, prompted ++ String.join (steps.map SessionStep.asked)⟩
        fault := none } := by
  induction steps generalizing replied prompted with
  | nil => simp [perform]
  | cons step rest inductionHypothesis =>
      rw [List.mem_cons, not_or] at readable
      cases step with
      | ask =>
          simp [perform, inductionHypothesis readable.2, SessionStep.said, SessionStep.asked,
            String.append_assoc]
      | unreadable => exact absurd rfl readable.1
      | say text =>
          simp [perform, inductionHypothesis readable.2, SessionStep.said, SessionStep.asked,
            String.append_assoc]

/-- A session over lines that are all decoded replies to them, after one prompt for
each line it gets to and one more where the lines are over. -/
theorem ofSource_unbounded {source : Bytes} {entered : List String}
    (decoded : lines source = entered.map some) :
    ofSource grammar showCount (.ofCapacity none) (.ofCapacity none) source =
      { replies := ⟨none, repliesTo grammar showCount entered⟩
        prompts :=
          ⟨none, String.join (List.replicate (entered.findIdx isExit + 1) promptText)⟩
        fault := none } := by
  have reached : (entered.take (entered.findIdx isExit)).length = entered.findIdx isExit :=
    List.length_take_of_le List.findIdx_le_length
  rw [ofSource, SessionStep.plan_eq_ofLines, decoded, Sink.ofCapacity,
    perform_unbounded (SessionStep.unreadable_notMem_ofLines entered),
    SessionStep.ofLines_map_some, List.map_append, String.join_append,
    SessionStep.join_said_attend, List.map_append, String.join_append,
    SessionStep.join_asked_attend, reached, List.replicate_succ', String.join_append, repliesTo]
  split <;> simp [SessionStep.said, SessionStep.asked]

/-- A session over a text never fails. Before each of the text's lines there is a
prompt, up to the first line that asks for the end or, where there is none, up to the
end of the input, which is prompted for as well; the replies are those to the lines
that are reached. What follows the line that asks for the end changes nothing, be it
a text or not, and wherever the session writes. -/
theorem replies_until_exit (grammar : Grammar) (showCount : Bool) :
    (∀ text : String,
      let entered := textLines text
      let last := entered.findIdx isExit
      lines (encode text) = entered.map some ∧
      ofSource grammar showCount (.ofCapacity none) (.ofCapacity none) (encode text) =
        { replies :=
            ⟨none, reportsOn grammar showCount (entered.take last) ++
              if last < entered.length then farewell else ""⟩
          prompts := ⟨none, String.join (List.replicate (last + 1) promptText)⟩
          fault := none }) ∧
    (∀ (start later : Bytes) (replies prompts : Sink),
      (∃ line, some line ∈ lines (start ++ [lineFeed]) ∧ isExit line = true) →
        ofSource grammar showCount replies prompts (start ++ lineFeed :: later) =
          ofSource grammar showCount replies prompts (start ++ [lineFeed])) := by
  refine ⟨?reached, ?ignored⟩
  case reached =>
    intro text
    exact ⟨lines_encode text, ofSource_unbounded (lines_encode text)⟩
  case ignored =>
    intro start later replies prompts asks
    rw [ofSource, ofSource, SessionStep.plan_eq_ofLines, SessionStep.plan_eq_ofLines,
      lines_append_lineFeed, SessionStep.ofLines_append asks]

/-- Over an empty line and one that shouts for the end with blanks around it there are
one report, the farewell and two prompts, whatever byte follows. -/
theorem replies_until_exit_shouted :
    let grammar := Grammar.ofRules [⟨"S", [.terminal 'a']⟩]
    let start := encode "\r\n eXit\t"
    let unlimited := Sink.ofCapacity none
    (∃ line, some line ∈ lines (start ++ [lineFeed]) ∧ isExit line = true) ∧
      ofSource grammar false unlimited unlimited (start ++ lineFeed :: [0xFF]) =
        { replies :=
            ⟨none, "The string cannot be parsed by the grammar.\nExiting the program.\n"⟩
          prompts := ⟨none, promptText ++ promptText⟩
          fault := none } := by
  intro grammar start unlimited
  have asks : ∃ line, some line ∈ lines (start ++ [lineFeed]) ∧ isExit line = true :=
    ⟨" eXit\t", by decide, by decide⟩
  have whole : start ++ [lineFeed] = encode "\r\n eXit\t\n" := by decide
  have stopped := replies_until_exit grammar false
  refine ⟨asks, ?_⟩
  rw [stopped.2 start [0xFF] unlimited unlimited asks, whole, (stopped.1 "\r\n eXit\t\n").2]
  decide

end Transcript

end Chomsky
