import AddonBuilder.Proofs.Locale.OneLine

/-!
# Line numbers in messages

The number in a message is counted up after each text, and once more for each continuation after the
first.
-/

namespace AddonBuilder.Locale

open Json List

/-! ## Lines that do not count -/

/-- What the next line is read as: a line of its own, the first continuation of a value or a later
one. -/
inductive Turn where
  | own
  | first
  | later

def Turn.after (line : Text) : Turn := if isContinued line then .later else .own

def beginsValue (line : Text) : Bool :=
  ((keyValue? line).bind fun p => unescape? p.2).any isContinued

/-- For each line whether it is left out of the count. -/
def uncounted : Turn → List Text → List Bool
  | _, [] => []
  | .own, line :: rest =>
    if isSkipped line then true :: uncounted .own rest
    else false :: uncounted (if beginsValue line then .first else .own) rest
  | .first, line :: rest => true :: uncounted (.after (Text.trim isWide line)) rest
  | .later, line :: rest => false :: uncounted (.after line) rest

/-- The line that a fault names. -/
def Fault.named? : Fault → Option (Nat × Text)
  | .line number shown | .key number shown | .unfinished number shown => some (number, shown)
  | .plural _ | .escape | .encoding => none

/-- A fault of the lines, the first of which has the given number: it names a line, at its place less
the lines that do not count, or there is an escape that cannot be read. -/
def Reports (number : Nat) (lines : List Text) (f : Fault) : Prop :=
  (∃ n shown i line, f.named? = some (n, shown) ∧ lines[i]? = some line ∧
    (shown = line ∨ shown = Text.trim isWide line) ∧
    n + ((uncounted .own lines).take (i + 1)).count true = number + i) ∨
  f = .escape ∧ ∃ line ∈ lines, ∃ key raw, keyValue? line = some (key, raw) ∧ unescape? raw = none

section Reading

variable {number number' n : Nat} {lines rest : List Text} {f : Fault} {value line v : Text}
  {table : Members}

theorem Reports.append (h : Reports number' rest f) (before : List Text) (marks : List Bool)
    (hmarks : uncounted .own (before ++ rest) = marks ++ uncounted .own rest)
    (hlen : marks.length = before.length)
    (hnumber : number' + marks.count true = number + before.length) :
    Reports number (before ++ rest) f := by
  rcases h with ⟨n, shown, i, line, hnamed, hline, hshown, hcount⟩ | ⟨rfl, line, hline, hbad⟩
  · refine .inl ⟨n, shown, before.length + i, line, hnamed, ?_, hshown, ?_⟩
    · rwa [getElem?_append_right (Nat.le_add_right _ _), Nat.add_sub_cancel_left]
    · rw [hmarks, Nat.add_assoc, ← hlen, take_length_add_append, count_append]
      omega
  · exact .inr ⟨rfl, line, mem_append_right _ hline, hbad⟩

/-- The lines of a value are counted until it ends. -/
theorem continueValue_ok (h : continueValue number value line lines = .ok (v, n, rest)) :
    ∃ before, lines = before ++ rest ∧ n = number + before.length ∧
      uncounted (.after line) lines = replicate before.length false ++ uncounted .own rest := by
  induction lines generalizing number value line with
  | nil =>
    rw [continueValue] at h
    split at h
    · cases h
    · cases h
      exact ⟨[], rfl, rfl, by simp [uncounted]⟩
  | cons next more ih =>
    rw [continueValue] at h
    split at h
    · rename_i hcontinued
      obtain ⟨before, rfl, rfl, hmarks⟩ := ih h
      refine ⟨next :: before, rfl, by simp; omega, ?_⟩
      rw [Turn.after, if_pos hcontinued, uncounted, hmarks]
      rfl
    · rename_i hcontinued
      cases h
      exact ⟨[], rfl, rfl, by rw [Turn.after, if_neg hcontinued]; rfl⟩

theorem continueValue_error (h : continueValue number value line lines = .error f) :
    f = .unfinished (number + lines.length) (lines.getLastD line) ∧
      uncounted (.after line) lines = replicate lines.length false := by
  induction lines generalizing number value line with
  | nil =>
    rw [continueValue] at h
    split at h
    · cases h
      exact ⟨rfl, rfl⟩
    · cases h
  | cons next more ih =>
    rw [continueValue] at h
    split at h
    · rename_i hcontinued
      obtain ⟨rfl, hmarks⟩ := ih h
      refine ⟨?_, ?_⟩
      · rw [getLastD_cons, length_cons, Nat.add_right_comm, Nat.add_assoc]
      · rw [Turn.after, if_pos hcontinued, uncounted, hmarks]
        rfl
    · cases h

theorem Reports.here (hskipped : ¬ isSkipped line)
    (hnamed : f.named? = some (number, line)) : Reports number (line :: rest) f := by
  refine .inl ⟨number, line, 0, line, hnamed, rfl, .inl rfl, ?_⟩
  rw [uncounted, if_neg hskipped]
  rfl

/-- **What is reported.**  A line that is skipped, a text on one line and a text on several lines are
passed over with their numbers, and every fault is one of the line that is read next. -/
theorem reports_of_parseFrom (h : parseFrom number table lines = .error f) : Reports number lines f := by
  induction hsize : lines.length using Nat.strongRecOn generalizing number table lines with
  | ind size ih =>
    subst hsize
    cases lines with
    | nil =>
      rw [parseFrom] at h
      cases h
    | cons line rest =>
      rw [parseFrom] at h
      split at h
      · rename_i hskipped
        refine (ih rest.length (by simp) h rfl).append [line] [true] ?_ rfl rfl
        rw [singleton_append, uncounted, if_pos hskipped]
        rfl
      rename_i hskipped
      split at h
      · cases h
        exact .here hskipped rfl
      rename_i key raw hkey
      split at h
      · cases h
        exact .inr ⟨rfl, line, mem_cons_self, key, raw, hkey, by assumption⟩
      rename_i value hvalue
      have hbegins : beginsValue line = isContinued value := by simp [beginsValue, hkey, hvalue]
      split at h
      · cases h
        exact .here hskipped rfl
      split at h
      · rename_i hcontinued
        split at h
        · cases h
          exact .here hskipped rfl
        rename_i first more
        have hmarks : uncounted .own (line :: first :: more) =
            false :: true :: uncounted (.after (Text.trim isWide first)) more := by
          rw [uncounted, if_neg hskipped, hbegins, if_pos hcontinued, uncounted]
        split at h
        · rename_i hvalue
          cases h
          obtain ⟨rfl, hrest⟩ := continueValue_error hvalue
          refine .inl ⟨_, _, more.length + 1, more.getLastD first, rfl, ?_, ?_, ?_⟩
          · rw [getElem?_cons_succ, getLastD_eq_getLast?, ← getLast?_cons, getLast?_eq_getElem?]
            rfl
          · cases more with
            | nil => exact .inr rfl
            | cons next more => exact .inl (by rw [getLastD_cons, getLastD_cons])
          · rw [hmarks, hrest]
            simp [count_replicate]
            omega
        · rename_i hvalue
          obtain ⟨before, rfl, rfl, hrest⟩ := continueValue_ok hvalue
          refine (ih _ (by simp; omega) h rfl).append (line :: first :: before)
            (false :: true :: replicate before.length false) ?_ (by simp)
            (by simp [count_replicate]; omega)
          rw [hrest] at hmarks
          exact hmarks
      · rename_i hcontinued
        refine (ih rest.length (by simp) h rfl).append [line] [false] ?_ rfl (by simp)
        rw [singleton_append, uncounted, if_neg hskipped, hbegins, if_neg hcontinued]
        rfl

end Reading

theorem Fault.message?_of_named? {f : Fault} {n : Nat} {shown : Text}
    (h : f.named? = some (n, shown)) (file : Text) :
    ∃ opening middle, f.message? file = some (opening ++ Text.ofNat n ++ middle ++ shown) := by
  cases f with
  | plural | escape | encoding => cases h
  | line | key | unfinished =>
    cases h
    exact ⟨_, _, rfl⟩

/-- **Faults.**  Reading lines fails with a message, unless an escape cannot be read.  A message that
names a line number shows a line, perhaps without the white space around it, and the number is the
place of that line less the number of lines up to it that do not count. -/
theorem parse_reports {lines : List Text} {f : Fault} (h : parse lines = .error f) (file : Text) :
    (f.message? file = none →
      ∃ line ∈ lines, ∃ key raw, keyValue? line = some (key, raw) ∧ unescape? raw = none) ∧
    ∀ n shown, f.named? = some (n, shown) →
      (∃ opening middle, f.message? file = some (opening ++ Text.ofNat n ++ middle ++ shown)) ∧
      ∃ i line, lines[i]? = some line ∧ (shown = line ∨ shown = Text.trim isWide line) ∧
        n + ((uncounted .own lines).take (i + 1)).count true = i + 1 := by
  rcases bind_eq_error_iff.1 h with h | ⟨table, -, h⟩
  · rcases reports_of_parseFrom h with
      ⟨n, shown, i, line, hnamed, hline, hshown, hcount⟩ | ⟨rfl, hbad⟩
    · have hmessage := Fault.message?_of_named? hnamed file
      grind
    · refine ⟨fun _ => hbad, fun n shown hnamed => ?_⟩
      cases hnamed
  · obtain ⟨missing, -, rfl⟩ := mapError_eq_error_iff.1 h
    refine ⟨fun hnone => ?_, fun n shown hnamed => ?_⟩
    · cases hnone
    · cases hnamed

/-- A comment, and a text over two lines, of which the second one does not count. -/
def commented : List Text := ["# c\n", "a=b\\\n", "c\n", "d\n"]

/-- The fourth line is reported as the second. -/
theorem parse_reports_commented :
    parse commented = .error (.line 2 "d\n") ∧ ∃ i line, commented[i]? = some line ∧
      (Text.ofString "d\n" = line ∨ Text.ofString "d\n" = Text.trim isWide line) ∧
      2 + ((uncounted .own commented).take (i + 1)).count true = i + 1 := by
  have hfails : parse commented = .error (.line 2 "d\n") := by
    have hfrom : parseFrom 1 [] commented = .error (.line 2 "d\n") := by
      rw [commented, parseFrom, if_pos (by decide)]
      refine (parseFrom_continuedLine plainKey_a (by decide) (by decide : Verbatim "b") 1 [] "c\n"
        ["d\n"]).trans ?_
      rw [continueValue_of_not_isContinued (by decide)]
      dsimp only [Except.bind]
      rw [parseFrom, if_neg (by decide)]
      rfl
    rw [parse, hfrom]
    rfl
  exact ⟨hfails, ((parse_reports hfails "").2 2 "d\n" rfl).2⟩

/-- A number does not count the comment before the line, and a fault has no message. -/
theorem faults_misreported :
    parse ["# c\n", "d\n"] = .error (.line 1 "d\n") ∧ parse ["a=\\u12\n"] = .error .escape := by
  have hcomment : parseFrom 1 [] ["# c\n", "d\n"] = .error (.line 1 "d\n") := by
    rw [parseFrom, if_pos (by decide), parseFrom, if_neg (by decide)]
    rfl
  have hkey : keyValue? "a=\\u12\n" = some (Text.ofString "a", Text.ofString "\\u12") := by decide
  have hvalue : unescape? "\\u12" = none := by
    show readEscapes? [0x5C, 0x75, 0x31, 0x32] = none
    rw [readEscapes?]
    rfl
  have hescape : parseFrom 1 [] ["a=\\u12\n"] = .error .escape := by
    rw [parseFrom, if_neg (by decide), hkey]
    dsimp only
    rw [hvalue]
  constructor
  · rw [parse, hcomment]
    rfl
  · rw [parse, hescape]
    rfl

end AddonBuilder.Locale
