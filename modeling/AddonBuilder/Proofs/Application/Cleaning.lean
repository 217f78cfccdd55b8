import AddonBuilder.Proofs.Application.Blocks
import AddonBuilder.Proofs.Files.Tree
import AddonBuilder.Proofs.Session.Outcome

/-!
# Taking blocks of settings away

Adding a block and taking one away rewrite the file of settings and nothing else (`Rewritten`). Each
turn of taking away makes the file shorter by its last block; after as many turns as there are
blocks the next one finds no mark (`exists_clears`).
-/

namespace AddonBuilder

/-- A session that differs from another one in the bytes of one file at most. -/
structure Session.Rewritten (s : Session) (d : Location) (last : String) (bytes : Bytes)
    (s' : Session) : Prop where
  session : s' = { s with files := s'.files }
  here : s'.files.here = s.files.here
  others : ∀ l, l ≠ d ++ [last] → s'.files.tree.get? l = s.files.tree.get? l
  file : s'.files.tree.get? (d ++ [last]) = some (.file bytes)

/-- Two sessions that differ at most in what stands at one path. -/
structure Session.SameBut (path : String) (s s' : Session) : Prop where
  session : s' = { s with files := s'.files }
  here : s'.files.here = s.files.here
  others : ∀ l, s.files.tree.locate? s.files.here path ≠ some l →
    s'.files.tree.get? l = s.files.tree.get? l

namespace Session.Rewritten

variable {s s' : Session} {d : Location} {path last : String} {old bytes : Bytes}

theorem refl (hold : s.files.tree.get? (d ++ [last]) = some (.file old)) :
    s.Rewritten d last old s := ⟨rfl, rfl, fun _ _ => rfl, hold⟩

variable (h : s.Rewritten d last bytes s')

include h

theorem strings_eq : s'.strings = s.strings := by
  rw [h.session]

theorem sameBut (hpath : s.files.FilePath path d last) : s.SameBut path s' := by
  refine ⟨h.session, h.here, fun l hl => h.others l ?_⟩
  rintro rfl
  exact hl hpath.locate?_eq

theorem isDir_eq_false : s'.files.tree.isDir (d ++ [last]) = false := by
  rw [FileTree.isDir, h.file]
  rfl

variable (hpath : s.files.FilePath path d last)
  (hold : s.files.tree.get? (d ++ [last]) = some (.file old))

include hpath hold

theorem filePath : s'.files.FilePath path d last := by
  have hsame : FileTree.SameDirs s.files.tree s'.files.tree := by
    intro l
    by_cases hl : l = d ++ [last]
    · rw [hl, h.isDir_eq_false, FileTree.isDir, hold]
      rfl
    · rw [FileTree.isDir, FileTree.isDir, h.others l hl]
  have hfiles : { s.files with tree := s'.files.tree } = s'.files :=
    congrArg (Files.mk s'.files.tree) h.here.symm
  exact hfiles ▸ hpath.withTree hsame

theorem read?_eq : s'.files.read? path = some bytes := by
  rw [Files.read?, (h.filePath hpath hold).node?_eq, h.file]

theorem write (more : Bytes) :
    ∃ s'', outcome (writeBytes path more) s' = (.ok (), s'') ∧ s.Rewritten d last more s'' := by
  have hwrite := (h.filePath hpath hold).write?_eq h.isDir_eq_false (.file more)
  have hne : d ++ [last] ≠ [] := by simp
  refine ⟨_, outcome_writeBytes hwrite, ?_, h.here, ?_, ?_⟩
  · rw [h.session]
  · intro l hl
    show (s'.files.tree.put (d ++ [last]) (.file more)).get? l = _
    rw [FileTree.get?_put hne, if_neg fun heq => hl heq.symm, h.others l hl]
  · show (s'.files.tree.put (d ++ [last]) (.file more)).get? (d ++ [last]) = _
    rw [FileTree.get?_put hne, if_pos rfl]

end Session.Rewritten

namespace Application

open Session Text Codec Option List

variable {p : Profile} {s s' : Session} {d : Location} {old bytes content : Bytes} {text : String}

theorem names_settingsFile (p : Profile) :
    ∃ before, Path.names p.settingsFile = before ++ ["user.js"] := by
  obtain ⟨before, hbefore⟩ := Path.names_suffix_join p.dir "user.js"
  exact ⟨before, hbefore.symm⟩

theorem exists_settingsFile (h : s.files.read? p.settingsFile = some content) :
    ∃ d, s.files.FilePath p.settingsFile d "user.js" ∧
      s.files.tree.get? (d ++ ["user.js"]) = some (.file content) := by
  obtain ⟨before, hnames⟩ := names_settingsFile p
  unfold Files.read? at h
  split at h
  · rename_i found hnode
    obtain rfl := some.inj h
    obtain ⟨l, hl, hget⟩ := bind_eq_some_iff.1 hnode
    obtain ⟨d, rfl, hpath⟩ := Files.exists_filePath_of_plain hnames (by decide) hl
    exact ⟨d, hpath, hget⟩
  · cases h

section Turns

variable (hpath : s.files.FilePath p.settingsFile d "user.js")
  (hold : s.files.tree.get? (d ++ ["user.js"]) = some (.file old))

include hpath hold

theorem addSettings_block (h : s.Rewritten d "user.js" bytes s')
    (hbytes : s.strings.read? bytes = some text) (block : Settings) :
    ∃ s'' body more, outcome (p.addSettings block) s' = (.ok (), s'') ∧ Body body ∧
      s.Rewritten d "user.js" (bytes ++ more) s'' ∧ 0 < more.length ∧
      s.strings.read? (bytes ++ more) = some (text ++ blockText body) := by
  obtain ⟨body, hbody, hblock⟩ := exists_settingsBlock block
  have hread := Strings.read?_ascii (k := s.strings) hbody.ascii_blockText
  obtain ⟨s₁, hsame, h₁⟩ := h.write hpath hold bytes
  obtain ⟨s₂, hadd, h₂⟩ := h₁.write hpath hold (bytes ++ utf8OfString (blockText body))
  refine ⟨s₂, body, _, ?_, hbody, h₂, ?_, Strings.read?_append hbytes hread⟩
  · rw [Profile.addSettings, outcome_bind_ok outcome_currentFiles, h.read?_eq hpath hold,
      getD_some, outcome_bind_ok hsame, hblock]
    dsimp only
    rw [encodeUtf8?_ofString]
    exact hadd
  · rw [length_pos_iff, ne_eq, utf8OfString_eq_nil_iff, blockText]
    simp

/-- **Blocks are added one after another.** -/
theorem addSettings_blocks (blocks : List Settings) (h : s.Rewritten d "user.js" bytes s')
    (hbytes : s.strings.read? bytes = some text) :
    ∃ s'' bodies bytes', outcome (blocks.forM p.addSettings) s' = (.ok (), s'') ∧
      (∀ body ∈ bodies, Body body) ∧ bodies.length = blocks.length ∧
      s.Rewritten d "user.js" bytes' s'' ∧ bytes.length + blocks.length ≤ bytes'.length ∧
      s.strings.read? bytes' = some (withBlocks text bodies) := by
  induction blocks generalizing s' bytes text with
  | nil => exact ⟨s', [], bytes, rfl, forall_mem_nil _, rfl, h, Nat.le_refl _, hbytes⟩
  | cons block blocks ih =>
    obtain ⟨s₁, body, more, hfirst, hbody, h₁, hmore, hbytes₁⟩ :=
      addSettings_block hpath hold h hbytes block
    obtain ⟨s₂, bodies, bytes', hrest, hbodies, hlen, h₂, hbytes', htext⟩ := ih h₁ hbytes₁
    refine ⟨s₂, body :: bodies, bytes', ?_, forall_mem_cons.2 ⟨hbody, hbodies⟩,
      congrArg (· + 1) hlen, h₂, ?_, htext⟩
    · show outcome (p.addSettings block >>= fun _ => blocks.forM p.addSettings) s' = _
      rw [outcome_bind_ok hfirst, hrest]
    · rw [length_append] at hbytes'
      rw [length_cons]
      omega

theorem outcome_readSettings (h : s.Rewritten d "user.js" bytes s')
    (hbytes : s.strings.read? bytes = some text) :
    outcome (readString p.settingsFile) s' = (.ok text, s') := by
  apply outcome_readString (h.read?_eq hpath hold)
  rw [h.strings_eq, hbytes]

theorem dropSettings_block {body : List String} (hbody : Body body)
    (h : s.Rewritten d "user.js" bytes s')
    (hbytes : s.strings.read? bytes = some (text ++ blockText body)) :
    ∃ s'' bytes', outcome p.dropSettings s' = (.ok true, s'') ∧ s.Rewritten d "user.js" bytes' s'' ∧
      s.strings.read? bytes' = some (s.strings.withLineFeeds text) := by
  obtain ⟨s₁, hwrite, h₁⟩ := h.write hpath hold (s.strings.write (s.strings.withLineFeeds text))
  refine ⟨s₁, _, ?_, h₁, ?_⟩
  · rw [Profile.dropSettings, outcome_bind_ok (outcome_readSettings hpath hold h hbytes),
      outcome_bind_ok outcome_get]
    dsimp only
    rw [h.strings_eq, lines_blockText _ hbody, withoutLastBlock_append _ hbody]
    exact outcome_bind_ok hwrite _
  · refine Strings.holds_of_read? hbytes fun c hc => ?_
    rcases Strings.mem_withLineFeeds hc with hc | rfl
    · exact .inl (String.toList_append ▸ mem_append_left _ hc)
    · exact .inr (by decide)

theorem dropSettings_unmarked (h : s.Rewritten d "user.js" bytes s')
    (hbytes : s.strings.read? bytes = some text)
    (hmarks : ∀ line ∈ s.strings.lines text, Unmarked line) :
    outcome p.dropSettings s' = (.ok false, s') := by
  rw [Profile.dropSettings, outcome_bind_ok (outcome_readSettings hpath hold h hbytes),
    outcome_bind_ok outcome_get]
  dsimp only
  rw [h.strings_eq, withoutLastBlock_unmarked hmarks]
  rfl

end Turns

/-- A number of turns takes a block away each, and the next one finds none. -/
inductive Clears (p : Profile) : Nat → Session → Session → Prop where
  | done {s : Session} (h : outcome p.dropSettings s = (.ok false, s)) : Clears p 0 s s
  | turn {n : Nat} {s s₁ s₂ : Session} (h : outcome p.dropSettings s = (.ok true, s₁))
      (rest : Clears p n s₁ s₂) : Clears p (n + 1) s s₂

/-- A count that is greater than the number of turns is never reached. -/
theorem Clears.dropBlocks {n bound : Nat} {s₁ : Session} (h : Clears p n s s₁) (hbound : n < bound) :
    outcome (p.dropBlocks bound) s = (.ok (), s₁) := by
  induction h generalizing bound with
  | done hdone =>
    obtain ⟨m, rfl⟩ := Nat.exists_eq_add_of_lt hbound
    rw [Profile.dropBlocks, outcome_bind_ok hdone]
    rfl
  | @turn n s s₁ s₂ hturn rest ih =>
    obtain ⟨m, rfl⟩ := Nat.exists_eq_add_of_lt hbound
    rw [Profile.dropBlocks, outcome_bind_ok hturn]
    exact ih (by omega)

/-- **As many turns as there are blocks clear the file.** -/
theorem exists_clears (hpath : s.files.FilePath p.settingsFile d "user.js")
    (hold : s.files.tree.get? (d ++ ["user.js"]) = some (.file old))
    {bodies : List (List String)} (hbodies : ∀ body ∈ bodies, Body body)
    (hmarks : ∀ line ∈ s.strings.lines (text ++ "\n"), Unmarked line)
    (hsome : bodies ≠ [] ∨ s.strings.withLineFeeds text = text)
    (h : s.Rewritten d "user.js" bytes s')
    (hbytes : s.strings.read? bytes = some (withBlocks text bodies)) :
    ∃ s'' bytes', Clears p bodies.length s' s'' ∧ s.Rewritten d "user.js" bytes' s'' ∧
      s.strings.read? bytes' = some (s.strings.withLineFeeds text) := by
  induction bodies using reverseRecOn generalizing s' bytes text with
  | nil =>
    have hsame := hsome.resolve_left (fun hne => hne rfl)
    have hdone := dropSettings_unmarked hpath hold h hbytes fun line hline =>
      hmarks line (Strings.mem_lines_concat hline)
    exact ⟨s', bytes, .done hdone, h, hsame.symm ▸ hbytes⟩
  | append_singleton bodies body ih =>
    rw [withBlocks_concat] at hbytes
    obtain ⟨s₁, bytes₁, hturn, h₁, hbytes₁⟩ :=
      dropSettings_block hpath hold (hbodies body (by simp)) h hbytes
    have hbodies' : ∀ b ∈ bodies, Body b := fun b hb => hbodies b (mem_append_left _ hb)
    rw [withLineFeeds_withBlocks _ hbodies'] at hbytes₁
    -- The text below the blocks is the same from now on.
    have hidem := s.strings.withLineFeeds_idem text
    obtain ⟨s₂, bytes₂, hrest, h₂, hbytes₂⟩ := ih hbodies'
      (by rwa [Strings.lines_withLineFeeds]) (.inr hidem) h₁ hbytes₁
    refine ⟨s₂, bytes₂, ?_, h₂, hidem ▸ hbytes₂⟩
    rw [length_append]
    exact .turn hturn hrest

/-- **Taking blocks away undoes adding them.**  After any settings were added to a file without
marks, taking blocks away comes to an end, and leaves the file with a line feed for every line break;
so it leaves the bytes of the file themselves exactly if they have no other line breaks.  Where
strings are held as bytes, every content is read as a text, and only line feeds and carriage returns
break lines. -/
theorem dropAllSettings_restores (p : Profile) (s : Session) (content : Bytes) (text : String)
    (blocks : List Settings) (hfile : s.files.read? p.settingsFile = some content)
    (htext : s.strings.read? content = some text)
    (hmarks : ∀ line ∈ s.strings.lines text, Unmarked line) (hblocks : blocks ≠ []) :
    ∃ s₁ s₂, outcome (blocks.forM p.addSettings) s = (.ok (), s₁) ∧
      Clears p blocks.length s₁ s₂ ∧ outcome p.dropAllSettings s₁ = (.ok (), s₂) ∧
      s₂.files.read? p.settingsFile =
        some (s.strings.write (Text.joinStrings "\n" (s.strings.lines (text ++ "\n")))) ∧
      (s₂.files.read? p.settingsFile = some content ↔
        ∀ c ∈ text.toList, Text.isLineBreak (s.strings.lineCode c) = true → c = '\n') ∧
      s.SameBut p.settingsFile s₂ := by
  obtain ⟨d, hpath, hold⟩ := exists_settingsFile hfile
  have hmarks' : ∀ line ∈ s.strings.lines (text ++ "\n"), Unmarked line := by
    intro line hline
    rcases Strings.mem_lines_of_concat hline with hline | rfl
    · exact hmarks line hline
    · decide
  obtain ⟨s₁, bodies, bytes, hadd, hbodies, hlen, h₁, hbytes, hblocked⟩ :=
    addSettings_blocks hpath hold blocks (.refl hold) htext
  have hsome : bodies ≠ [] := by
    rintro rfl
    exact hblocks (List.length_eq_zero_iff.1 hlen.symm)
  obtain ⟨s₂, bytes', hclears, h₂, hleft⟩ :=
    exists_clears hpath hold hbodies hmarks' (.inl hsome) h₁ hblocked
  rw [hlen] at hclears
  have hread : s₂.files.read? p.settingsFile =
      some (s.strings.write (s.strings.withLineFeeds text)) := by
    rw [h₂.read?_eq hpath hold, Strings.write_of_read? hleft]
  refine ⟨s₁, s₂, hadd, hclears, ?_, hread, ?_, h₂.sameBut hpath⟩
  · rw [Profile.dropAllSettings, outcome_bind, outcome_readBytes, h₁.read?_eq hpath hold]
    exact hclears.dropBlocks (by omega)
  · rw [← Strings.withLineFeeds_eq_iff, h₂.read?_eq hpath hold, Option.some_inj]
    constructor
    · rintro rfl
      exact Option.some.inj (hleft.symm.trans htext)
    · intro hsame
      rw [← Strings.write_of_read? hleft, hsame, Strings.write_of_read? htext]

/-- A profile with a file of settings that is no UTF-8 and ends its lines in two ways. -/
def mixedLines : Session where
  platform := "linux2"
  files.tree := [(["p"], .dir), (["p", "user.js"], .file [0x61, 0xB, 0xFF, 0xD, 0xA, 0x62, 0xA])]

/-- A vertical tab and a byte outside ASCII come back as they were. -/
theorem dropAllSettings_restores_mixed :
    ∃ s₁ s₂, outcome ([Settings.common, []].forM (Profile.addSettings ⟨"/p", false, []⟩))
        mixedLines = (.ok (), s₁) ∧
      outcome (Profile.dropAllSettings ⟨"/p", false, []⟩) s₁ = (.ok (), s₂) ∧
      s₂.files.read? "/p/user.js" = some [0x61, 0xB, 0xFF, 0xA, 0x62, 0xA] := by
  obtain ⟨s₁, s₂, hadd, -, hdrop, hleft, -⟩ := dropAllSettings_restores ⟨"/p", false, []⟩
    mixedLines [0x61, 0xB, 0xFF, 0xD, 0xA, 0x62, 0xA] "a\x0b\xff\r\nb\n" [Settings.common, []]
    (by decide) (by decide) (by decide) (by simp)
  exact ⟨s₁, s₂, hadd, hdrop, hleft.trans (by decide)⟩

end Application

end AddonBuilder
