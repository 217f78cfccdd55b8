import AddonBuilder.Application.Run
import AddonBuilder.Proofs.Files.Tree
import AddonBuilder.Proofs.Session.Outcome
import AddonBuilder.Proofs.Text.Strings

/-!
# Watching a run

While an application runs, each look at it takes one event.
-/

namespace AddonBuilder

open List Session

/-! ## Files that an application writes -/

/-- A path at which a file can be written: there is a file, or nothing yet. -/
structure Files.Held (f : Files) (path : String) (l : Location) (content : Option Bytes) :
    Prop where
  path : ∃ d last, l = d ++ [last] ∧ f.FilePath path d last
  content : f.tree.get? l = content.map .file

namespace Files.Held

variable {f : Files} {path : String} {l : Location} {content : Option Bytes}
  (h : f.Held path l content)

include h

theorem read? : f.read? path = content := by
  obtain ⟨d, last, rfl, hpath⟩ := h.path
  rw [Files.read?, hpath.node?_eq, h.content]
  cases content <;> rfl

theorem contains : f.contains path = content.isSome := by
  obtain ⟨d, last, rfl, hpath⟩ := h.path
  rw [Files.contains, hpath.node?_eq, h.content, Option.isSome_map]

theorem write? (bytes : Bytes) :
    ∃ f', f.write? path (.file bytes) = some f' ∧ f'.Held path l (some bytes) ∧
      ∀ {path' l' content'}, l' ≠ l → f.Held path' l' content' → f'.Held path' l' content' := by
  obtain ⟨d, last, rfl, hpath⟩ := h.path
  have hne : d ++ [last] ≠ [] := by simp
  have hfile : f.tree.isDir (d ++ [last]) = false := by
    rw [FileTree.isDir, h.content]
    cases content <;> rfl
  have hsame := FileTree.sameDirs_put hne hfile bytes
  refine ⟨_, hpath.write?_eq hfile _, ⟨⟨d, last, rfl, hpath.withTree hsame⟩, ?_⟩, ?_⟩
  · exact (FileTree.get?_put hne _ _).trans (if_pos rfl)
  · intro path' l' content' hl' h'
    obtain ⟨d', last', hlast', hpath'⟩ := h'.path
    refine ⟨⟨d', last', hlast', hpath'.withTree hsame⟩, ?_⟩
    exact ((FileTree.get?_put hne _ _).trans (if_neg fun heq => hl' heq.symm)).trans h'.content

end Files.Held

namespace Application

open Run

variable {r : Run} {places : Places} {s s' t : Session} {e : Event} {start : Binary64}
  {log out : Option Bytes} {content : Bytes} {result : String}

/-- The content of a file after an event that may add to it. -/
def grown (content : Option Bytes) : Option Bytes → Option Bytes
  | none => content
  | some more => some (content.getD [] ++ more)

/-- The files that a running application writes, with their contents. -/
def Attended (places : Places) (f : Files) (log out : Option Bytes) (result : Bytes) : Prop :=
  ∃ a b c : Location, a ≠ b ∧ a ≠ c ∧ b ≠ c ∧ f.Held places.log a log ∧ f.Held places.out b out ∧
    f.Held places.result c (some result)

def Run.Places.watched (places : Places) : Watched :=
  ⟨some places.log, some places.out, some places.result⟩

theorem exists_writeAt_append {path : String} {l : Location} {content : Option Bytes}
    (h : s.files.Held path l content) (more : Option Bytes) :
    ∃ f', outcome (writeAt append (some path) more) s = (.ok (), { s with files := f' }) ∧
      f'.Held path l (grown content more) ∧ ∀ {path' l' content'}, l' ≠ l →
        s.files.Held path' l' content' → f'.Held path' l' content' := by
  cases more with
  | none => exact ⟨s.files, rfl, h, fun _ => id⟩
  | some more =>
    obtain ⟨f', hwrite, hheld, hothers⟩ := h.write? (content.getD [] ++ more)
    refine ⟨f', ?_, hheld, hothers⟩
    rw [writeAt, append, outcome_bind_ok outcome_currentFiles, h.read?]
    exact outcome_writeBytes hwrite

/-- **An event adds to the files and moves the clock, and does nothing else.** -/
theorem exists_happen (hwatched : s.watched = places.watched)
    (h : Attended places s.files log out content) (e : Event) :
    ∃ f', outcome (happen e) s =
        (.ok (), { s with files := f', clock := e.advance.elim s.clock s.clock.add }) ∧
      Attended places f' (grown log e.log) (grown out e.out) (e.result.getD content) := by
  have hhappen : outcome (happen e) s = outcome (do
      writeAt append (some places.log) e.log
      writeAt append (some places.out) e.out
      writeAt writeBytes (some places.result) e.result)
      { s with clock := e.advance.elim s.clock s.clock.add } := by
    cases s
    obtain rfl := hwatched
    cases e with
    | mk advance => cases advance <;> rfl
  obtain ⟨a, b, c, hab, hac, hbc, hlog, hout, hresult⟩ := h
  obtain ⟨f₁, h₁, hlog, hothers⟩ := exists_writeAt_append
    (s := { s with clock := e.advance.elim s.clock s.clock.add }) hlog e.log
  have hout := hothers hab.symm hout
  have hresult := hothers hac.symm hresult
  obtain ⟨f₂, h₂, hout, hothers⟩ := exists_writeAt_append
    (s := { s with files := f₁, clock := e.advance.elim s.clock s.clock.add }) hout e.out
  have hlog := hothers hab hlog
  have hresult := hothers hbc.symm hresult
  rw [hhappen, outcome_bind_ok h₁, outcome_bind_ok h₂]
  cases he : e.result with
  | none => exact ⟨f₂, rfl, a, b, c, hab, hac, hbc, hlog, hout, hresult⟩
  | some written =>
    obtain ⟨f₃, hwrite, hresult, hothers⟩ := hresult.write? written
    exact ⟨f₃, outcome_writeBytes hwrite, a, b, c, hab, hac, hbc, hothers hac hlog,
      hothers hbc hout, hresult⟩

/-! ## What a look finds -/

def Follower.upTo (content : Option Bytes) : Follower :=
  ⟨(content.getD []).length, (content.getD []).length⟩

/-- What a look finds of what was added to a file. -/
def heard (k : Strings) (more : Option Bytes) : Option String :=
  (more.filter (· ≠ [])).bind k.read?

/-- All that an event writes can be read. -/
def Readable (k : Strings) (e : Event) : Prop :=
  ∀ bytes, some bytes ∈ [e.log, e.out, e.result] → (k.read? bytes).isSome = true

theorem readable_bytes (e : Event) : Readable .bytes e := fun _ _ => rfl

theorem look_grown {k : Strings} {f : Files} {path : String} {content more : Option Bytes}
    (h : f.read? path = grown content more) (hread : ∀ bytes, more = some bytes → (k.read? bytes).isSome) :
    look k f path (.upTo content) = (.ok (heard k more), .upTo (grown content more)) := by
  unfold look
  rw [h]
  cases more with
  | none =>
    cases content <;> simp [grown, Follower.look, Follower.notice?, Follower.upTo, addedText, heard]
  | some more =>
    by_cases hmore : more = []
    · subst hmore
      simp [grown, Follower.look, Follower.notice?, Follower.upTo, addedText, heard, Option.filter]
    · have hpos := length_pos_iff.2 hmore
      obtain ⟨text, htext⟩ := Option.isSome_iff_exists.1 (hread more rfl)
      simp [grown, Follower.look, Follower.notice?, Follower.upTo, Follower.read, addedText, hpos,
        hmore, htext, heard, Option.filter]

/-- What is known of a run after some events. -/
structure Moment where
  strings : Strings := .bytes
  clock : Binary64
  /-- When something was put out last. -/
  lastOutput : Binary64
  result : String := ""
  test : String := "Jetpack startup"

/-- The test that is noticed in what was added to a file. -/
def announced? (k : Strings) (more : Option Bytes) : Option String :=
  (heard k more).bind fun text => testName? text.toList

/-- The moment after one event. -/
def Moment.next (m : Moment) (e : Event) : Moment :=
  let clock := e.advance.elim (m.clock.add pause) (m.clock.add pause).add
  { strings := m.strings
    clock
    lastOutput :=
      if (heard m.strings e.log).isSome || (heard m.strings e.out).isSome then clock else m.lastOutput
    result := (e.result.bind m.strings.read?).getD m.result
    test := (announced? m.strings e.out).getD ((announced? m.strings e.log).getD m.test) }

/-- What is wrong at a moment. -/
def Moment.complaint? (r : Run) (start : Binary64) (m : Moment) : Option String :=
  r.complaint? start m.lastOutput m.clock

/-- A watch, begun in a session, that has seen everything up to a moment. -/
structure Abreast (r : Run) (places : Places) (begun : Session) (m : Moment) (s : Session)
    (w : Watch) : Prop where
  session : s = { begun with
    files := s.files, printedErrors := s.printedErrors, clock := m.clock, events := s.events }
  strings : s.strings = m.strings
  watched : s.watched = places.watched
  lastOutput : w.lastOutput = m.lastOutput
  test : (r.testing && r.parseable) = true → w.test = m.test
  files : ∃ log out content, Attended places s.files log out content ∧
    m.strings.read? content = some m.result ∧ w.log = .upTo log ∧ w.out = .upTo out
  readable : ∀ e ∈ s.events, Readable m.strings e

theorem outcome_show (r : Run) (w : Watch) (text : Option String) :
    ∃ errors test,
      ((r.testing && r.parseable) →
        test = (text.bind fun text => testName? text.toList).getD w.test) ∧
      outcome (r.show_ w text) s = (.ok { w with
        lastOutput := if text.isSome then s.clock else w.lastOutput, test },
      { s with printedErrors := errors }) := by
  cases text with
  | none => exact ⟨s.printedErrors, w.test, fun _ => rfl, rfl⟩
  | some text =>
    cases htest : if r.testing && r.parseable then testName? text.toList else none with
    | none =>
      refine ⟨s.printedErrors ++ text, w.test, fun hr => ?_, by simp only [show_, htest]; rfl⟩
      rw [if_pos hr] at htest
      simp [htest]
    | some test =>
      refine ⟨s.printedErrors ++ text, test, fun hr => ?_, by simp only [show_, htest]; rfl⟩
      rw [if_pos hr] at htest
      simp [htest]

/-- The line that blames a test. -/
def blame (test message : String) : Text :=
  "TEST-UNEXPECTED-FAIL | " ++ test ++ " | " ++ message ++ "\n"

theorem outcome_timeOut {α : Type} (r : Run) (test message : String) :
    ∃ s', outcome (r.timeOut test message : Command α) s =
        (.error (.failed (.general message)), s') ∧
      (r.parseable → s'.printedErrors = s.printedErrors ++ blame test message) := by
  cases h : r.parseable with
  | false => exact ⟨s, by simp only [timeOut, h]; rfl, fun h => by cases h⟩
  | true =>
    exact ⟨{ s with printedErrors := s.printedErrors ++ blame test message },
      by simp only [timeOut, h]; rfl, fun _ => rfl⟩

variable {m : Moment} {w : Watch} {before later rest : List Event}

theorem outcome_judge (h : Abreast r places t m s w) :
    (∀ message, m.complaint? r start = some message →
      ∃ s', outcome (r.judge start w m.result) s = (.error (.failed (.general message)), s') ∧
        ((r.testing && r.parseable) → s'.printedErrors = s.printedErrors ++ blame m.test message)) ∧
    (m.complaint? r start = none → outcome (r.judge start w m.result) s =
      (.ok (w, if isVerdict m.result then some m.result else none), s)) := by
  have hclock : s.clock = m.clock := congrArg Session.clock h.session
  have hcomplaint : r.complaint? start w.lastOutput s.clock = m.complaint? r start := by
    rw [h.lastOutput, hclock, Moment.complaint?]
  rw [judge, outcome_bind_ok (show outcome get s = (.ok s, s) from rfl), hcomplaint]
  refine ⟨fun message hmessage => ?_, fun hnone => ?_⟩
  · rw [hmessage]
    obtain ⟨s', hs', hsaid⟩ := outcome_timeOut r w.test message
    exact ⟨s', hs', fun hr => by rw [hsaid (Bool.and_eq_true_iff.1 hr).2, h.test hr]⟩
  · rw [hnone]
    rfl

theorem outcome_sleep (seconds : Binary64) (hevents : s.events = e :: rest) :
    outcome (sleep seconds) s =
      outcome (happen e) { s with clock := s.clock.add seconds, events := rest } := by
  cases s
  cases hevents
  rfl

/-- **A look keeps the watch abreast of the events.** -/
theorem glance_eq (h : Abreast r places t m s w) (hevents : s.events = e :: rest) :
    ∃ s' w', Abreast r places t (m.next e) s' w' ∧ s'.events = rest ∧
      outcome (r.glance places start w) s = outcome (r.judge start w' (m.next e).result) s' := by
  obtain ⟨log, out, content, hattended, hcontent, hlog, hout⟩ := h.files
  obtain ⟨hreadable, hreadables⟩ := forall_mem_cons.1 (hevents ▸ h.readable)
  obtain ⟨f, hhappen, hattended⟩ := exists_happen
    (s := { s with clock := s.clock.add pause, events := rest }) h.watched hattended e
  have hclock : s.clock = m.clock := congrArg Session.clock h.session
  set s₁ : Session := { s with files := f, clock := (m.next e).clock, events := rest } with hs₁
  have hsleep : outcome (sleep pause) s = (.ok (), s₁) := by
    rw [outcome_sleep pause hevents, hhappen, hclock]
    rfl
  have hok : ∀ (text : Option String) (s : Session),
      outcome (Session.ofExcept Fault.defect (.ok text)) s = (.ok text, s) := fun _ _ => rfl
  have hcontent : m.strings.read? (e.result.getD content) = some (m.next e).result := by
    rw [Moment.next]
    cases hresult : e.result with
    | none => exact hcontent
    | some bytes =>
      obtain ⟨text, htext⟩ := Option.isSome_iff_exists.1 (hreadable bytes (by simp [hresult]))
      simp [htext]
  -- the log is looked at first, and the output after it
  obtain ⟨errors₁, test₁, htest₁, hshow₁⟩ := outcome_show (s := s₁) r
    { w with log := .upTo (grown log e.log) } (heard m.strings e.log)
  set w₁ : Watch := { w with
    log := .upTo (grown log e.log)
    lastOutput := if (heard m.strings e.log).isSome then s₁.clock else w.lastOutput
    test := test₁ } with hw₁
  obtain ⟨errors₂, test₂, htest₂, hshow₂⟩ := outcome_show
    (s := { s₁ with printedErrors := errors₁ }) r { w₁ with out := .upTo (grown out e.out) }
    (heard m.strings e.out)
  set s₂ : Session := { s₁ with printedErrors := errors₂ } with hs₂
  have habreast : ∀ errors, Abreast r places t (m.next e) { s₁ with printedErrors := errors }
    { w₁ with
      out := .upTo (grown out e.out)
      lastOutput := if (heard m.strings e.out).isSome then s₁.clock else w₁.lastOutput
      test := test₂ } := by
    intro errors
    refine ⟨?_, h.strings, h.watched, ?_, fun hr => ?_, ⟨_, _, _, hattended, hcontent, rfl, rfl⟩,
      hreadables⟩
    · rw [hs₁, h.session]
    · simp only [hs₁, hw₁, h.lastOutput, Moment.next]
      cases (heard m.strings e.log).isSome <;> cases (heard m.strings e.out).isSome <;> rfl
    · exact (htest₂ hr).trans (by rw [hw₁, Moment.next, htest₁ hr, h.test hr]; rfl)
  obtain ⟨a, b, c, hab, hac, hbc, hheld, hheld', hheld''⟩ := hattended
  have hcontains : s₂.files.contains places.result := hheld''.contains
  have hresult : outcome (readString places.result) s₂ = (.ok (m.next e).result, s₂) :=
    outcome_readString hheld''.read? (by rw [← hcontent, ← h.strings])
  have hlogged := look_grown (k := s₁.strings) (show s₁.files.read? _ = _ from hheld.read?)
    fun bytes hbytes => h.strings ▸ hreadable bytes (by simp [hbytes])
  have hputOut := look_grown (k := s₁.strings) (show s₁.files.read? _ = _ from hheld'.read?)
    fun bytes hbytes => h.strings ▸ hreadable bytes (by simp [hbytes])
  rw [show s₁.strings = m.strings from h.strings] at hlogged hputOut
  rw [glance, outcome_bind_ok hsleep, outcome_bind_ok outcome_get, outcome_bind_ok outcome_currentFiles,
    hlog]
  simp only [show s₁.strings = m.strings from h.strings, hlogged]
  rw [outcome_bind_ok (hok _ _), outcome_bind_ok hshow₁, outcome_bind_ok outcome_currentFiles]
  simp only [hw₁, hout, hputOut]
  rw [outcome_bind_ok (hok _ _), outcome_bind_ok hshow₂, outcome_bind_ok outcome_currentFiles,
    if_pos hcontains, outcome_bind_ok hresult]
  split
  · have hsaid : ∀ (a b : Text) (k : Command (Watch × Option String)), ∃ errors, outcome (do
        writeError a
        writeError b
        k) s₂ = outcome k { s₁ with printedErrors := errors } :=
      fun a b _ => ⟨errors₂ ++ a ++ b, rfl⟩
    obtain ⟨errors, herrors⟩ := hsaid _ _ _
    exact ⟨_, _, habreast errors, rfl, herrors⟩
  · exact ⟨s₂, _, habreast errors₂, rfl, rfl⟩

/-! ## Runs -/

/-- The moment after some events. -/
def Moment.after (m : Moment) (events : List Event) : Moment :=
  events.foldl Moment.next m

/-- Events after each of which there is no result, and no limit is exceeded. -/
def Pending (r : Run) (start : Binary64) : Moment → List Event → Prop
  | _, [] => True
  | m, e :: rest => isVerdict (m.next e).result = false ∧ (m.next e).complaint? r start = none ∧
    Pending r start (m.next e) rest

theorem outcome_watch_succ (n : Nat) {w' : Watch} {found : Option String}
    (h : outcome (r.glance places start w) s = (.ok (w', found), s')) :
    outcome (r.watch places start (n + 1) w) s =
      found.elim (outcome (r.watch places start n w') s') fun result => (.ok result, s') := by
  rw [watch, outcome_bind_ok h]
  cases found <;> rfl

/-- **A watch goes on while there is no result and no limit is exceeded.** -/
theorem watch_pending (h : Abreast r places t m s w) (hevents : s.events = before ++ rest)
    (hpending : Pending r start m before) :
    ∃ s' w', Abreast r places t (m.after before) s' w' ∧ s'.events = rest ∧
      outcome (r.watch places start (s.events.length + 1) w) s =
        outcome (r.watch places start (rest.length + 1) w') s' := by
  induction before generalizing m s w with
  | nil => exact ⟨s, w, h, hevents, by rw [hevents]; rfl⟩
  | cons e before ih =>
    obtain ⟨hrunning, hsilent, hpending⟩ := hpending
    obtain ⟨s', w', habreast, hrest, hglance⟩ := glance_eq h hevents
    have hfound := hglance.trans ((outcome_judge habreast).2 hsilent)
    have hlen : s.events.length = s'.events.length + 1 := by simp [hevents, hrest]
    rw [hrunning] at hfound
    rw [outcome_watch_succ _ hfound, hlen]
    exact ih habreast hrest hpending

theorem watch_result (h : Abreast r places t m s w) (hevents : s.events = e :: rest) (n : Nat)
    (hnone : (m.next e).complaint? r start = none) (hdone : isVerdict (m.next e).result) :
    ∃ s' w', Abreast r places t (m.next e) s' w' ∧
      outcome (r.watch places start (n + 1) w) s = (.ok (m.next e).result, s') := by
  obtain ⟨s', w', habreast, -, hglance⟩ := glance_eq h hevents
  have hfound := hglance.trans ((outcome_judge habreast).2 hnone)
  rw [hdone] at hfound
  exact ⟨s', w', habreast, outcome_watch_succ n hfound⟩

theorem watch_complaint (h : Abreast r places t m s w) (hevents : s.events = e :: rest) (n : Nat)
    {message : String} (hmessage : (m.next e).complaint? r start = some message) :
    ∃ s', outcome (r.watch places start (n + 1) w) s = (.error (.failed (.general message)), s') ∧
      ((r.testing && r.parseable) →
        ∃ said, s'.printedErrors = said ++ blame (m.next e).test message) := by
  obtain ⟨s₁, w', habreast, -, hglance⟩ := glance_eq h hevents
  obtain ⟨s', hs', hsaid⟩ := (outcome_judge habreast).1 message hmessage
  exact ⟨s', by rw [watch, outcome_bind, hglance, hs'], fun hr => ⟨_, hsaid hr⟩⟩

variable {runner : Runner} {profile : Profile}

/-- From a session to the one in which the application was started. -/
def Run.Begins (r : Run) (runner : Runner) (profile : Profile) (s t : Session) : Prop :=
  r.showOnly = false ∧ ∃ version s₁ s₂,
    outcome (do
      printError ("Using binary at '" ++ runner.binary ++ "'.")
      outputOf (runner.command ++ ["-v"])) s = (.ok version, s₁) ∧
    outcome (r.accept profile version) s₁ = (.ok true, s₂) ∧
    outcome (do
      printError ("Using profile at '" ++ profile.dir ++ "'.")
      runner.launch) s₂ = (.ok (), t)

/-- From a session in which there is a result to the one after the application has ended and the
profile is clean. -/
def Concludes (runner : Runner) (profile : Profile) (s t : Session) : Prop :=
  ∃ process s₁, outcome (runner.wait firstProcess) s = (.ok process, s₁) ∧
    outcome profile.clean (outcome (runner.kill process) s₁).2 = (.ok (), t)

theorem outcome_report (start : Binary64) (result : String) (s : Session) :
    ∃ s', outcome (report start result) s = (.ok (some (if result = "OK" then 0 else -1)), s') := by
  by_cases h : result = "OK"
  · exact ⟨_, by simp only [report, h, if_true]; rfl⟩
  · exact ⟨_, by simp only [report, h, if_false]; rfl⟩

theorem onDesktop_of_begins (h : r.Begins runner profile s t) :
    outcome (r.onDesktop runner profile places start) s =
      outcome (r.supervise runner profile places start >>= report start) t := by
  obtain ⟨hshown, version, s₁, s₂, hversion, haccept, hlaunch⟩ := h
  obtain ⟨_, s₃, htold, hversion⟩ := outcome_bind_ok_iff.1 hversion
  obtain ⟨_, s₄, htold', hlaunch⟩ := outcome_bind_ok_iff.1 hlaunch
  rw [onDesktop, outcome_bind_ok htold, outcome_bind_ok hversion, outcome_bind_ok haccept]
  simp only [Bool.not_true, Bool.false_eq_true, if_false, hshown]
  rw [outcome_bind_ok htold', outcome_bind_ok hlaunch]

theorem ending_ne_ok {stop : Stop} :
    (outcome (r.ending runner (.error stop)) s).1 ≠ .ok result := by
  intro h
  unfold ending at h
  cases hstay : r.stay with
  | true =>
    rw [hstay] at h
    cases h
  | false =>
    rw [hstay] at h
    obtain ⟨_, _, -, h⟩ := outcome_bind_ok_iff.1 (Prod.ext h rfl)
    cases h

theorem outcome_supervise {found last : Except Stop String} {s'' : Session}
    (h : outcome (r.watch places start (s.events.length + 1) { lastOutput := start }) s =
      (found, s'))
    (hlast : outcome (r.ending runner found) s' = (last, s'')) :
    outcome (r.supervise runner profile places start) s =
      outcome (profile.clean >>= fun _ => ExceptT.mk (pure last)) s'' := by
  have hattempt : ∀ {α : Type} {c : Command α} {s s' : Session} {a : Except Stop α},
      outcome c s = (a, s') → outcome (attempt c) s = (.ok a, s') := by
    intro α c s s' a h
    have hrun : outcome (attempt c) s = (.ok (outcome c s).1, (outcome c s).2) := rfl
    rw [hrun, h]
  rw [supervise, outcome_bind_ok (show outcome get s = (.ok s, s) from rfl),
    outcome_bind_ok (hattempt h), outcome_bind_ok (hattempt hlast)]

theorem onDesktop_of_result (hbegins : r.Begins runner profile s t)
    (h : outcome (r.watch places start (t.events.length + 1) { lastOutput := start }) t =
      (.ok result, s')) {u : Session} (hconcludes : Concludes runner profile s' u) :
    ∃ v, outcome (r.onDesktop runner profile places start) s =
      (.ok (some (if result = "OK" then 0 else -1)), v) := by
  obtain ⟨process, s₁, hwait, hclean⟩ := hconcludes
  have hending : outcome (r.ending runner (.ok result)) s' =
      (.ok result, (outcome (runner.kill process) s₁).2) := (outcome_bind_ok hwait _).trans rfl
  obtain ⟨v, hv⟩ := outcome_report start result u
  refine ⟨v, ?_⟩
  rw [onDesktop_of_begins hbegins, outcome_bind, outcome_supervise h hending,
    outcome_bind_ok hclean]
  exact hv

theorem onDesktop_of_stop {stop : Stop} (hbegins : r.Begins runner profile s t)
    (h : outcome (r.watch places start (t.events.length + 1) { lastOutput := start }) t =
      (.error stop, s')) (code : Option Int) (u : Session) :
    outcome (r.onDesktop runner profile places start) s ≠ (.ok code, u) := by
  intro hcode
  rw [onDesktop_of_begins hbegins] at hcode
  obtain ⟨result, s₁, hsupervise, -⟩ := outcome_bind_ok_iff.1 hcode
  rw [outcome_supervise h (Prod.eta _).symm] at hsupervise
  obtain ⟨_, s₃, -, hlast⟩ := outcome_bind_ok_iff.1 hsupervise
  exact ending_ne_ok (congrArg Prod.fst hlast)

/-- The application was started, and has written nothing yet; what it will write can be read. -/
def Awaits (places : Places) (s : Session) : Prop :=
  s.watched = places.watched ∧
    (∃ log out, Attended places s.files log out [] ∧ log.getD [] = [] ∧ out.getD [] = []) ∧
    ∀ e ∈ s.events, Readable s.strings e

/-- What is known before the first event. -/
def Moment.first (s : Session) (start : Binary64) : Moment :=
  { strings := s.strings, clock := s.clock, lastOutput := start }

theorem Awaits.abreast (h : Awaits places s) (start : Binary64) :
    Abreast r places s (.first s start) s { lastOutput := start } := by
  obtain ⟨hwatched, ⟨log, out, hattended, hlog, hout⟩, hreadable⟩ := h
  have hempty : s.strings.read? [] = some "" := by cases s.strings <;> rfl
  refine ⟨rfl, rfl, hwatched, rfl, fun _ => rfl, ⟨log, out, _, hattended, hempty, ?_, ?_⟩, hreadable⟩
  · rw [Follower.upTo, hlog]
    rfl
  · rw [Follower.upTo, hout]
    rfl

/-- **The first result that comes in time is the result of the run.**  Let there be no result and no
limit exceeded before an event, and a result after it.  If no limit is exceeded then, the watch ends
with this result, nothing but files, clock, events and messages having changed; once the application
has ended and the profile is clean, the code is 0 for `OK` and -1 for `FAIL`.  If a limit is
exceeded then, the watch ends with a complaint and the run gives no code. -/
theorem onDesktop_first_result (hbegins : r.Begins runner profile s t) (hawaits : Awaits places t)
    (hevents : t.events = before ++ e :: later)
    (hpending : Pending r start (.first t start) before) {m : Moment}
    (hm : m = (Moment.first t start).after (before ++ [e])) (hdone : isVerdict m.result = true) :
    (m.complaint? r start = none →
      ∃ s' w', outcome (r.watch places start (t.events.length + 1) { lastOutput := start }) t =
          (.ok m.result, s') ∧ Abreast r places t m s' w' ∧
        ∀ u, Concludes runner profile s' u →
          ∃ v, outcome (r.onDesktop runner profile places start) s =
            (.ok (some (if m.result = "OK" then 0 else -1)), v)) ∧
    ∀ message, m.complaint? r start = some message →
      (∃ s', outcome (r.watch places start (t.events.length + 1) { lastOutput := start }) t =
        (.error (.failed (.general message)), s')) ∧
      ∀ code u, outcome (r.onDesktop runner profile places start) s ≠ (.ok code, u) := by
  obtain ⟨s₁, w₁, habreast, hrest, hwatch₁⟩ :=
    watch_pending (hawaits.abreast start) hevents hpending
  have hafter : m = ((Moment.first t start).after before).next e := by
    rw [hm, Moment.after, foldl_append]
    rfl
  rw [hafter] at hdone ⊢
  refine ⟨fun hnone => ?_, fun message hmessage => ?_⟩
  · obtain ⟨s', w', habreast, hwatch⟩ := watch_result habreast hrest _ hnone hdone
    have hwatch := hwatch₁.trans hwatch
    exact ⟨s', w', hwatch, habreast, fun u hu => onDesktop_of_result hbegins hwatch hu⟩
  · obtain ⟨s', hwatch, -⟩ := watch_complaint habreast hrest _ hmessage
    have hwatch := hwatch₁.trans hwatch
    exact ⟨⟨s', hwatch⟩, onDesktop_of_stop hbegins hwatch⟩

/-! A run with a limit, in which the log is the file `/log`, the output `/out` and the result
`/result`. -/

/-- A run with the usual limits. -/
def limitedRun : Run where
  template := ""
  description := []
  options := []
  application := .null
  limited := true
  root := ""
  toolDir := ""
  pkg := ""

def plainRunner : Runner := ⟨"/app", none, ["/app"], none⟩

def rootPlaces : Places := ⟨"/log", "/out", "/result"⟩

/-- A session whose application has been started. -/
def begunSession (events : List Event) : Session :=
  { files := { tree := [(["out"], .file []), (["result"], .file [])] }, events
    platform := "win32", watched := rootPlaces.watched }

theorem awaits_root (hfiles : s.files = (begunSession []).files)
    (hwatched : s.watched = rootPlaces.watched) (hstrings : s.strings = .bytes) :
    Awaits rootPlaces s := by
  refine ⟨hwatched, ⟨none, some [], ?_, rfl, rfl⟩, fun e _ => hstrings ▸ readable_bytes e⟩
  rw [hfiles]
  exact ⟨["log"], ["out"], ["result"], by decide, by decide, by decide,
    ⟨⟨[], "log", rfl, ⟨[""], rfl, rfl⟩, rfl, by decide⟩, rfl⟩,
    ⟨⟨[], "out", rfl, ⟨[""], rfl, rfl⟩, rfl, by decide⟩, rfl⟩,
    ⟨⟨[], "result", rfl, ⟨[""], rfl, rfl⟩, rfl, by decide⟩, rfl⟩⟩

theorem begunSession_begins (events : List Event) :
    ∃ t, limitedRun.Begins plainRunner ⟨"/profile", true, []⟩ (begunSession events) t ∧
      Awaits rootPlaces t ∧
      Moment.first t (.zero false) = { clock := .zero false, lastOutput := .zero false } ∧
      t.events = events ∧ t.platform = "win32" :=
  ⟨_, ⟨rfl, _, _, _, rfl, rfl, rfl⟩, awaits_root rfl rfl rfl, rfl, rfl, rfl⟩

theorem concludes_of_platform (h : s.platform = "win32") (dir : String) :
    ∃ u, Concludes plainRunner ⟨dir, true, []⟩ s u := by
  have hnote : ∀ {s : Session} {what : String} {process : Int}, s.platform = "win32" →
      outcome (plainRunner.forProcesses what process) s =
        (.ok process, { s with started := s.started ++ [what] }) := by
    intro s what process hs
    cases s
    cases hs
    rfl
  have hclean : ∀ s, ∃ u, outcome (Profile.clean ⟨dir, true, []⟩) s = (.ok (), u) := by
    intro s
    rw [Profile.clean, if_pos rfl, outcome_bind_ok outcome_currentFiles]
    cases s.files.removeDir? dir <;> exact ⟨_, rfl⟩
  obtain ⟨u, hu⟩ := hclean _
  exact ⟨u, _, _, hnote h, hu⟩

def verdict : Bytes := Strings.bytes.write "OK"

/-- A result that comes after the limit on silence. -/
def lateResult : Event := { advance := some (.ofInt 301), result := some verdict }

/-- A result that comes in time: something was put out 299 seconds before. -/
theorem onDesktop_first_result_soon :
    ∃ v, outcome (limitedRun.onDesktop plainRunner ⟨"/profile", true, []⟩ rootPlaces (.zero false))
      (begunSession [{ out := some [0x61] }, { advance := some (.ofInt 299), result := some verdict }]) =
        (.ok (some 0), v) := by
  obtain ⟨t, hbegins, hawaits, hfirst, hevents, hplatform⟩ := begunSession_begins
    [{ out := some [0x61] }, { advance := some (.ofInt 299), result := some verdict }]
  have hpending :
      Pending limitedRun (.zero false) (.first t (.zero false)) [{ out := some [0x61] }] := by
    rw [hfirst]
    exact ⟨by decide, by decide +kernel, trivial⟩
  obtain ⟨m, hm⟩ : ∃ m, m = (Moment.first t (.zero false)).after
      ([{ out := some [0x61] }] ++ [{ advance := some (.ofInt 299), result := some verdict }]) := ⟨_, rfl⟩
  have hresult : m.result = "OK" := by
    rw [hm, hfirst]
    decide
  obtain ⟨s', w', -, habreast, hcode⟩ := (onDesktop_first_result hbegins hawaits hevents hpending
    hm (by rw [hresult]; decide)).1 (by rw [hm, hfirst]; decide +kernel)
  obtain ⟨u, hu⟩ :=
    concludes_of_platform ((congrArg Session.platform habreast.session).trans hplatform) "/profile"
  rw [hresult] at hcode
  exact hcode u hu

/-- **A result is lost if it comes with the end of a long silence.** -/
theorem onDesktop_loses_result : ¬ ∃ code s',
    outcome (limitedRun.onDesktop plainRunner ⟨"/profile", true, []⟩ rootPlaces (.zero false))
      (begunSession [lateResult]) = (.ok code, s') := by
  rintro ⟨code, s', h⟩
  obtain ⟨t, hbegins, hawaits, hfirst, hevents, -⟩ := begunSession_begins [lateResult]
  have hcomplaint : ((Moment.first t (.zero false)).next lateResult).complaint?
      limitedRun (.zero false) = some "Test output exceeded timeout (300s)." := by
    rw [hfirst]
    decide +kernel
  obtain ⟨_, hwatch, -⟩ := watch_complaint (hawaits.abreast (.zero false)) hevents _ hcomplaint
  exact onDesktop_of_stop hbegins hwatch code s' h

end Application

end AddonBuilder
