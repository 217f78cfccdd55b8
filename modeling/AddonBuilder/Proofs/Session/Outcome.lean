import AddonBuilder.Session.Basic

/-!
# How commands end

A command takes a session to an end and to the session after it.
-/

namespace AddonBuilder

/-- The text of a file in UTF-8. -/
def Files.text? (f : Files) (path : String) : Option String :=
  (f.read? path).bind Codec.stringOfUtf8?

namespace Session

variable {α β : Type} {s s' : Session}

variable {ε : Type} {path : String} {t : Text}

/-- How a command ends in a session, and the session after it. -/
def outcome (c : Command α) (s : Session) : Except Stop α × Session := c.run.run s

theorem outcome_bind (c : Command α) (f : α → Command β) (s : Session) :
    outcome (c >>= f) s = match outcome c s with
      | (.ok a, s') => outcome (f a) s'
      | (.error e, s') => (.error e, s') := by
  unfold outcome
  rw [ExceptT.run_bind, StateT.run_bind]
  rcases c.run.run s with ⟨_ | _, s'⟩ <;> rfl

variable {c : Command α} {a : α}

/-- After a step that succeeds the next one follows. -/
theorem outcome_bind_ok (h : outcome c s = (.ok a, s'))
    (f : α → Command β) : outcome (c >>= f) s = outcome (f a) s' := by
  rw [outcome_bind, h]

/-- Two commands succeed exactly if both do. -/
theorem outcome_bind_ok_iff {f : α → Command β} {b : β} :
    outcome (c >>= f) s = (.ok b, s') ↔
      ∃ a s₁, outcome c s = (.ok a, s₁) ∧ outcome (f a) s₁ = (.ok b, s') := by
  rw [outcome_bind]
  grind

theorem outcome_forM_cons_ok_iff {f : α → Command Unit} {l : List α} :
    outcome ((a :: l).forM f) s = (.ok (), s') ↔
      ∃ s₁, outcome (f a) s = (.ok (), s₁) ∧ outcome (l.forM f) s₁ = (.ok (), s') := by
  have hcons : outcome ((a :: l).forM f) s = outcome (f a >>= fun _ => l.forM f) s := rfl
  rw [hcons, outcome_bind_ok_iff]
  exact ⟨fun ⟨_, s₁, h⟩ => ⟨s₁, h⟩, fun ⟨s₁, h⟩ => ⟨(), s₁, h⟩⟩

theorem outcome_demand_ok_iff {d : Defect} {o : Option α} :
    outcome (demand d o) s = (.ok a, s') ↔ o = some a ∧ s = s' := by
  cases o with
  | none => exact iff_of_false (fun h => by cases h) (by simp)
  | some b => exact ⟨fun h => by cases h; exact ⟨rfl, rfl⟩, fun ⟨hb, hs⟩ => by cases hb; rw [hs]; rfl⟩

theorem outcome_ofExcept_ok_iff {wrap : ε → Fault} {e : Except ε α} :
    outcome (ofExcept wrap e) s = (.ok a, s') ↔ e = .ok a ∧ s = s' := by
  cases e with
  | error x => exact iff_of_false (fun h => by cases h) (by simp)
  | ok b => exact ⟨fun h => by cases h; exact ⟨rfl, rfl⟩, fun ⟨hb, hs⟩ => by cases hb; rw [hs]; rfl⟩

variable {f : Files → Option Files}

theorem outcome_change_ok_iff :
    outcome (change f) s = (.ok (), s') ↔
      ∃ files, f s.files = some files ∧ s' = { s with files := files } := by
  rw [change, outcome_bind_ok_iff]
  constructor
  · rintro ⟨_, _, hfiles, h⟩
    cases hfiles
    obtain ⟨files, _, hdemand, hset⟩ := outcome_bind_ok_iff.1 h
    obtain ⟨hfiles, rfl⟩ := outcome_demand_ok_iff.1 hdemand
    cases hset
    exact ⟨files, hfiles, rfl⟩
  · rintro ⟨files, hfiles, rfl⟩
    exact ⟨s.files, s, rfl, by rw [hfiles]; rfl⟩

@[simp] theorem outcome_pure (a : α) : outcome (pure a) s = (.ok a, s) := rfl

@[simp] theorem outcome_modify (f : Session → Session) :
    outcome (modify f : Command Unit) s = (.ok (), f s) := rfl

theorem outcome_ofExcept (wrap : ε → Fault) (e : Except ε α) :
    outcome (ofExcept wrap e) s = (e.mapError (Stop.failed ∘ wrap), s) := by
  cases e with
  | ok a => rfl
  | error e => rfl

@[simp] theorem outcome_get : outcome (get : Command Session) s = (.ok s, s) := rfl

@[simp] theorem outcome_currentFiles : outcome currentFiles s = (.ok s.files, s) := rfl

@[simp] theorem outcome_print (t : Text) :
    outcome (print t) s =
      (.ok (), { s with printed := s.printed ++ (t ++ Text.ofString "\n") }) := rfl

@[simp] theorem outcome_printError (t : Text) :
    outcome (printError t) s =
      (.ok (), { s with printedErrors := s.printedErrors ++ (t ++ Text.ofString "\n") }) := rfl

theorem outcome_readBytes (path : String) :
    outcome (readBytes path) s = match s.files.read? path with
      | some content => (.ok content, s)
      | none => (.error (.failed (.defect .file)), s) := by
  rw [readBytes, outcome_bind_ok outcome_currentFiles]
  cases s.files.read? path with
  | none => rfl
  | some content => rfl

theorem outcome_readString {content : Bytes} {text : String}
    (hread : s.files.read? path = some content) (htext : s.strings.read? content = some text) :
    outcome (readString path) s = (.ok text, s) := by
  have hbytes : outcome (readBytes path) s = (.ok content, s) := by rw [outcome_readBytes, hread]
  rw [readString, outcome_bind_ok hbytes, outcome_bind_ok outcome_get, htext]
  rfl

variable {files : Files}

theorem outcome_change (h : f s.files = some files) :
    outcome (change f) s = (.ok (), { s with files := files }) := by
  rw [change, outcome_bind_ok outcome_currentFiles, h]
  rfl

theorem outcome_writeBytes {content : Bytes}
    (h : s.files.write? path (.file content) = some files) :
    outcome (writeBytes path content) s = (.ok (), { s with files := files }) :=
  outcome_change h

/-- A text is written in two steps: the file is emptied first. -/
theorem outcome_writeText {bytes : Bytes} {emptied : Files}
    (hempty : s.files.write? path (.file []) = some emptied)
    (hbytes : Codec.encodeUtf8? t = some bytes)
    (hwrite : emptied.write? path (.file bytes) = some files) :
    outcome (writeText path t) s = (.ok (), { s with files := files }) := by
  rw [writeText, outcome_bind_ok (outcome_change hempty), hbytes]
  exact outcome_writeBytes hwrite

theorem exists_of_outcome_writeText (h : outcome (writeText path t) s = (.ok (), s')) :
    ∃ bytes emptied files, s.files.write? path (.file []) = some emptied ∧
      Codec.encodeUtf8? t = some bytes ∧ emptied.write? path (.file bytes) = some files ∧
      s' = { s with files := files } := by
  rw [writeText, outcome_bind_ok_iff] at h
  obtain ⟨⟨⟩, s₁, hchange, h⟩ := h
  obtain ⟨emptied, hempty, rfl⟩ := outcome_change_ok_iff.1 hchange
  obtain ⟨bytes, s₂, hdemand, hwrite⟩ := outcome_bind_ok_iff.1 h
  obtain ⟨hbytes, rfl⟩ := outcome_demand_ok_iff.1 hdemand
  obtain ⟨files, hfiles, rfl⟩ := outcome_change_ok_iff.1 hwrite
  exact ⟨bytes, emptied, files, hempty, hbytes, hfiles, rfl⟩

end Session

end AddonBuilder
