import AddonBuilder.Proofs.Application.Watching

/-!
# The test that is blamed for a timeout

A run that takes too long blames the test that was announced last, as far as the watch has noticed:
a look notices only the first announcement in what was added to the log and to the output
(`after_test`).
-/

namespace AddonBuilder.Application

open List Text Run Session

/-! ## Announcements in lines -/

section Lines

variable {line log rest : List Char} {lines : List (List Char)}

theorem dropStart?_append_cons {p : List Char} {x : Char} (hp : x ∉ p) (l rest : List Char) :
    dropStart? p (l ++ x :: rest) = (dropStart? p l).map (· ++ x :: rest) := by
  induction p generalizing l with
  | nil => rfl
  | cons a p ih =>
    obtain ⟨hx, hp⟩ := not_or.1 (mt mem_cons.2 hp)
    cases l with
    | nil => exact if_neg (Ne.symm hx)
    | cons b l =>
      by_cases hab : a = b
      · simpa [dropStart?, hab] using ih hp l
      · simp [dropStart?, hab]

theorem testHere?_line (hline : '\n' ∉ line) (rest : List Char) :
    testHere? (line ++ '\n' :: rest) = testHere? (line ++ ['\n']) := by
  have hmark : '\n' ∉ "TEST-START | ".toList := by decide
  rw [testHere?, testHere?, dropStart?_append_cons hmark, dropStart?_append_cons hmark]
  cases hname : dropStart? "TEST-START | ".toList line with
  | none => rfl
  | some name =>
    have hname : '\n' ∉ name := fun hmem =>
      hline (dropStart?_eq_some_iff.1 hname ▸ mem_append_right _ hmem)
    have hspan : ∀ rest, (name ++ '\n' :: rest).span (· ≠ '\n') = (name, '\n' :: rest) := by
      intro rest
      have hall : ∀ c ∈ name, decide (c ≠ '\n') := fun c hc =>
        decide_eq_true fun heq => hname (heq ▸ hc)
      rw [span_eq_takeWhile_dropWhile, takeWhile_append_of_pos hall, dropWhile_append_of_pos hall]
      simp
    simp only [Option.map_some, Option.bind_eq_bind, Option.bind_some, hspan]
    cases name <;> rfl

theorem testName?_line (hline : '\n' ∉ line) (rest : List Char) :
    testName? (line ++ '\n' :: rest) = (testName? (line ++ ['\n'])).or (testName? rest) := by
  have hcons : ∀ c l, testName? (c :: l) = (testHere? (c :: l)).or (testName? l) := by
    intro c l
    rw [testName?]
    cases testHere? (c :: l) <;> rfl
  induction line with
  | nil =>
    rw [nil_append, hcons, nil_append, hcons, ← nil_append ('\n' :: rest), testHere?_line hline]
    rfl
  | cons c line ih =>
    have hrest := ih fun hmem => hline (mem_cons_of_mem c hmem)
    rw [cons_append, hcons, ← cons_append, testHere?_line hline, hrest, cons_append, hcons,
      Option.or_assoc]

/-- The tests that a log says were started. -/
def testsIn (log : List Char) : List String := (cutAfterLineFeed log).filterMap testName?

theorem testsIn_line (hline : '\n' ∉ line) (rest : List Char) :
    testsIn (line ++ '\n' :: rest) = (testName? (line ++ ['\n'])).toList ++ testsIn rest := by
  have hcut : cutAfterLineFeed (line ++ '\n' :: rest) =
      (line ++ ['\n']) :: cutAfterLineFeed rest := by
    induction line with
    | nil => rfl
    | cons c line ih =>
      obtain ⟨hc, hline⟩ := not_or.1 (mt mem_cons.2 hline)
      rw [cons_append, cutAfterLineFeed, if_neg (Ne.symm hc), ih hline]
      rfl
  rw [testsIn, hcut, filterMap_cons]
  cases testName? (line ++ ['\n']) <;> rfl

/-- A text made of complete lines. -/
inductive Complete : List Char → Prop
  | nil : Complete []
  | line {line rest : List Char} : '\n' ∉ line → Complete rest → Complete (line ++ '\n' :: rest)

theorem Complete.testsIn_append (h : Complete log) (rest : List Char) :
    testsIn (log ++ rest) = testsIn log ++ testsIn rest := by
  induction h with
  | nil => rfl
  | line hline _ ih =>
    rw [append_assoc, cons_append, testsIn_line hline, testsIn_line hline, ih, append_assoc]

theorem Complete.testName?_eq (h : Complete log) : testName? log = (testsIn log).head? := by
  induction h with
  | nil => rfl
  | line hline _ ih =>
    rw [testName?_line hline, testsIn_line hline, ih]
    cases testName? (_ ++ ['\n']) <;> rfl

end Lines

/-! ## The test of a moment -/

variable {r : Run} {places : Places} {s s' t : Session} {start : Binary64} {m : Moment} {w : Watch}
  {message : String}

/-- **The test is the first one announced by the last text that announces any.** -/
theorem after_test (m : Moment) (events : List Event) : (m.after events).test =
    ((events.flatMap fun e => [e.log, e.out]).filterMap (announced? m.strings)).getLast?.getD
      m.test := by
  induction events generalizing m with
  | nil => rfl
  | cons e events ih =>
    rw [Moment.after, foldl_cons, ← Moment.after, ih, show (m.next e).strings = m.strings from rfl]
    cases hlog : announced? m.strings e.log <;> cases hout : announced? m.strings e.out <;>
      simp [Moment.next, hlog, hout, getLast?_cons]

/-- What a look finds in the log after an event. -/
def addedLog (k : Strings) (e : Event) : List Char := ((heard k e.log).getD "").toList

theorem announced?_log {k : Strings} {e : Event} (h : Complete (addedLog k e)) :
    announced? k e.log = (testsIn (addedLog k e)).head? := by
  rw [← h.testName?_eq, addedLog, announced?]
  cases heard k e.log <;> rfl

theorem after_test_of_lines {events : List Event} (m : Moment)
    (h : ∀ e ∈ events, Complete (addedLog m.strings e) ∧
      (testsIn (addedLog m.strings e)).length ≤ 1 ∧ announced? m.strings e.out = none) :
    (m.after events).test =
      (testsIn (events.flatMap (addedLog m.strings))).getLast?.getD m.test := by
  induction events generalizing m with
  | nil => rfl
  | cons e events ih =>
    obtain ⟨⟨hcomplete, hone, hout⟩, hevents⟩ := forall_mem_cons.1 h
    rw [Moment.after, foldl_cons, ← Moment.after, ih (m.next e) hevents, flatMap_cons,
      hcomplete.testsIn_append, Moment.next, hout, announced?_log hcomplete]
    cases htests : testsIn (addedLog m.strings e) with
    | nil => rfl
    | cons test tests =>
      obtain rfl : tests = [] := by simpa [htests] using hone
      simp [getLast?_cons]

/-- A watch that ends with a complaint has taken the events up to it. -/
theorem exists_seen_of_watch {n : Nat} (h : Abreast r places t m s w)
    (hstop : outcome (r.watch places start n w) s = (.error (.failed (.general message)), s')) :
    ∃ seen later, s.events = seen ++ later ∧ (m.after seen).complaint? r start = some message ∧
      ((r.testing && r.parseable) →
        ∃ said, s'.printedErrors = said ++ blame (m.after seen).test message) := by
  induction n generalizing m s w with
  | zero => cases hstop
  | succ n ih =>
    cases hevents : s.events with
    | nil =>
      cases s
      cases hevents
      cases hstop
    | cons e rest =>
      cases hcomplaint : (m.next e).complaint? r start with
      | some message' =>
        obtain ⟨s₁, hwatch, hsaid⟩ := watch_complaint h hevents n hcomplaint
        simp only [hwatch, Prod.mk.injEq, Except.error.injEq, Stop.failed.injEq,
          Fault.general.injEq, ofString_injective.eq_iff] at hstop
        obtain ⟨rfl, rfl⟩ := hstop
        exact ⟨[e], rest, rfl, hcomplaint, hsaid⟩
      | none =>
        obtain ⟨s₁, w₁, habreast, hrest, hglance⟩ := glance_eq h hevents
        have hfound := hglance.trans ((outcome_judge habreast).2 hcomplaint)
        rw [outcome_watch_succ n hfound] at hstop
        cases hdone : isVerdict (m.next e).result with
        | true =>
          rw [hdone] at hstop
          cases hstop
        | false =>
          rw [hdone] at hstop
          obtain ⟨seen, later, hseen, hmessage, hsaid⟩ := ih habreast hstop
          exact ⟨e :: seen, later, by rw [← hrest, hseen]; rfl, hmessage, hsaid⟩

/-- **What is blamed for a timeout.**  The line names the first test announced by the last text, of
the log or of the output, that announced any: the last test of the log, if it came in complete lines
with at most one announcement a look, and nothing was announced by the output. -/
theorem watch_blames {n : Nat} (hawaits : Awaits places t) (htesting : r.testing = true)
    (hparseable : r.parseable = true)
    (hstop : outcome (r.watch places start n { lastOutput := start }) t =
      (.error (.failed (.general message)), s')) :
    ∃ seen later said test, t.events = seen ++ later ∧
      ((Moment.first t start).after seen).complaint? r start = some message ∧
      s'.printedErrors = said ++ blame test message ∧
      test = ((seen.flatMap fun e => [e.log, e.out]).filterMap
        (announced? t.strings)).getLast?.getD "Jetpack startup" ∧
      ((∀ e ∈ seen, Complete (addedLog t.strings e) ∧
          (testsIn (addedLog t.strings e)).length ≤ 1 ∧ announced? t.strings e.out = none) →
        test = (testsIn (seen.flatMap (addedLog t.strings))).getLast?.getD "Jetpack startup") := by
  obtain ⟨seen, later, hseen, hmessage, hsaid⟩ := exists_seen_of_watch (hawaits.abreast start) hstop
  obtain ⟨said, hsaid⟩ := hsaid (by rw [htesting, hparseable]; rfl)
  exact ⟨seen, later, said, _, hseen, hmessage, hsaid, after_test (Moment.first t start) seen,
    fun h => after_test_of_lines (Moment.first t start) h⟩

def testRun : Run := { limitedRun with testing := true, parseable := true }

/-- An event after which the run has taken too long. -/
def slowEvent (log : String) : Event :=
  { advance := some (.ofInt 5401), log := some (Strings.bytes.write log) }

theorem slowEvent_complaint (log : String) (h : (heard .bytes (slowEvent log).log).isSome) :
    ((Moment.first (begunSession [slowEvent log]) (.zero false)).next (slowEvent log)).complaint?
      testRun (.zero false) = some "Test run exceeded timeout (5400s)." := by
  have hclock : testRun.complaint? (.zero false)
      (((Binary64.zero false).add pause).add (.ofInt 5401))
      (((Binary64.zero false).add pause).add (.ofInt 5401)) =
        some "Test run exceeded timeout (5400s)." := by decide +kernel
  have hfirst : Moment.first (begunSession [slowEvent log]) (.zero false) =
      { clock := .zero false, lastOutput := .zero false } := rfl
  rw [hfirst, ← hclock]
  simp only [Moment.complaint?, Moment.next, h, Bool.true_or, if_true]
  rfl

/-- The test that was started last is blamed. -/
theorem watch_blames_slow : ∃ s' said,
    outcome (testRun.watch rootPlaces (.zero false) 1 { lastOutput := .zero false })
      (begunSession [slowEvent "TEST-START | a\n"]) =
        (.error (.failed (.general "Test run exceeded timeout (5400s).")), s') ∧
    s'.printedErrors = said ++ blame "a" "Test run exceeded timeout (5400s)." := by
  have hawaits : Awaits rootPlaces (begunSession [slowEvent "TEST-START | a\n"]) :=
    awaits_root rfl rfl rfl
  obtain ⟨s', hstop, -⟩ := watch_complaint (hawaits.abreast (.zero false)) rfl 0
    (slowEvent_complaint _ (by decide))
  obtain ⟨seen, later, said, test, hseen, hmessage, hsaid, htest, -⟩ :=
    watch_blames hawaits rfl rfl hstop
  refine ⟨s', said, hstop, ?_⟩
  cases seen with
  | nil => exact absurd hmessage (by decide +kernel)
  | cons e seen =>
    obtain ⟨rfl, hnil⟩ := cons.inj hseen
    obtain ⟨rfl, rfl⟩ := append_eq_nil_iff.1 hnil.symm
    have hfirst : test = "a" := htest.trans (by decide)
    rw [hsaid, hfirst]

/-- **Of two tests that one look finds, the first is blamed.** -/
theorem first_of_two_blamed : ∃ s' said,
    outcome (testRun.watch rootPlaces (.zero false) 1 { lastOutput := .zero false })
      (begunSession [slowEvent "TEST-START | a\nTEST-START | b\n"]) =
        (.error (.failed (.general "Test run exceeded timeout (5400s).")), s') ∧
    s'.printedErrors = said ++ blame "a" "Test run exceeded timeout (5400s)." ∧
    (testsIn "TEST-START | a\nTEST-START | b\n".toList).getLast? = some "b" := by
  have hawaits : Awaits rootPlaces (begunSession [slowEvent "TEST-START | a\nTEST-START | b\n"]) :=
    awaits_root rfl rfl rfl
  obtain ⟨s', hstop, hsaid⟩ := watch_complaint (hawaits.abreast (.zero false)) rfl 0
    (slowEvent_complaint _ (by decide))
  obtain ⟨said, hsaid⟩ := hsaid rfl
  exact ⟨s', said, hstop, hsaid, by decide⟩

end AddonBuilder.Application
