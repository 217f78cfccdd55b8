import AddonBuilder.Package.Start
import AddonBuilder.Proofs.Files.Tree
import AddonBuilder.Proofs.Json.Rereading
import AddonBuilder.Proofs.Session.Outcome

/-!
# Giving a package an identifier

Until a description has been read and a name for its copy has been found, nothing is written
(`outcome_identify_of_not`).
-/

namespace AddonBuilder.Package

open Json Session Assoc FileTree Value Codec Option

/-- An identifier that was drawn: fourteen letters and digits of ASCII after a fixed beginning. -/
def IsIdentifier (id : String) : Prop :=
  ∃ digits : List Char, id = "jid1-" ++ String.ofList digits ∧ digits.length = 14 ∧
    ∀ c ∈ digits, c.isAlphanum = true

theorem isAlphanum_digit64 : ∀ n < 64, (digit64 n).isAlphanum := by decide

theorem isAlphanum_of_mem_base64 (bytes : Bytes) : ∀ c ∈ base64 bytes, c.isAlphanum := by
  have hbyte : ∀ b : UInt8, b.toNat < 256 := fun b => b.toNat_lt
  fun_induction base64 bytes with
  | case1 => nofun
  | case2 a n =>
    have ha := hbyte a
    simp only [List.forall_mem_cons]
    exact ⟨isAlphanum_digit64 _ (by omega), isAlphanum_digit64 _ (by omega), nofun⟩
  | case3 a b n =>
    have ha := hbyte a
    have hb := hbyte b
    simp only [List.forall_mem_cons]
    exact ⟨isAlphanum_digit64 _ (by omega), isAlphanum_digit64 _ (by omega),
      isAlphanum_digit64 _ (by omega), nofun⟩
  | case4 a b c rest n ih =>
    have ha := hbyte a
    have hb := hbyte b
    have hc := hbyte c
    simp only [List.forall_mem_cons]
    exact ⟨isAlphanum_digit64 _ (by omega), isAlphanum_digit64 _ (by omega),
      isAlphanum_digit64 _ (by omega), isAlphanum_digit64 _ (by omega), ih⟩

theorem length_base64 {bytes : Bytes} (h : bytes.length = identifierSize) :
    (base64 bytes).length = 14 := by
  match bytes, h with
  | [_, _, _, _, _, _, _, _, _, _], _ => rfl

theorem isIdentifier_newIdentifier {random : Bytes} (h : identifierSize ≤ random.length) :
    IsIdentifier (newIdentifier random) :=
  ⟨base64 (random.take identifierSize), rfl, length_base64 (by simpa using h),
    isAlphanum_of_mem_base64 _⟩

/-- A file holds a description that is read as a value. -/
def Loads (f : Files) (path : String) (v : Value) : Prop :=
  ∃ content, f.read? path = some content ∧ decodeUtf8 content = .ok v

/-- The name of a copy is free, and is the first name with letters added to it. -/
theorem freeName?_spec {f : Files} {first name : String} (h : freeName? f first = some name) :
    f.contains name = false ∧ ∃ more, name = first ++ more ∧ '/' ∉ more.toList := by
  have hfree : f.contains name = false := by simpa using List.find?_some h
  refine ⟨hfree, ?_⟩
  rcases List.mem_cons.1 (List.mem_of_find?_eq_some h) with rfl | hmem
  · exact ⟨"", by simp, by simp⟩
  · obtain ⟨i, -, rfl⟩ := List.mem_map.1 hmem
    refine ⟨"-" ++ toString i, by rw [String.append_assoc], ?_⟩
    have hdigits : '/' ∉ (toString i).toList := by
      intro hslash
      have := Nat.isDigit_of_mem_toDigits (b := 10) (by decide) (by decide) (n := i)
        (c := '/') (by simpa using hslash)
      revert this
      decide
    simpa using hdigits

/-! ### The files -/

/-- A tree in which a file has been moved and another has been written in its place. -/
def setAside (t : FileTree) (l l' : Location) (content bytes : Bytes) : FileTree :=
  put (put (put (erase t l) l' (.file content)) l (.file [])) l (.file bytes)

section SetAside

variable {t : FileTree} {l l' : Location} (ht : t.Sound) (hl : l ≠ []) (hl' : l' ≠ [])
  (content bytes : Bytes)

include ht hl hl'

theorem get?_setAside (m : Location) : (setAside t l l' content bytes).get? m =
    if l = m then some (.file bytes) else if l' = m then some (.file content) else t.get? m := by
  unfold setAside
  rw [get?_put hl, get?_put hl, get?_put hl', get?_erase ht hl]
  by_cases hm : l = m
  · simp [hm]
  · simp [hm]

theorem sameDirs_setAside (hfile : t.isDir l = false)
    (hfree : t.isDir l' = false) : t.SameDirs (setAside t l l' content bytes) := by
  intro m
  unfold isDir at *
  rw [get?_setAside ht hl hl' content bytes]
  grind

end SetAside

/-- What has to be known before files are changed: where the description is, and that the place of
its copy is free. -/
structure Movable (f : Files) (path name : String) (d : Location) (last last' : String)
    (content : Bytes) : Prop where
  sound : f.tree.Sound
  path : f.FilePath path d last
  name : f.FilePath name d last'
  file : f.tree.get? (d ++ [last]) = some (.file content)
  free : f.tree.get? (d ++ [last']) = none

namespace Movable

variable {f : Files} {path name last last' : String} {d : Location} {content : Bytes}
  (h : Movable f path name d last last' content)

include h

theorem isDir_file : f.tree.isDir (d ++ [last]) = false := by
  simp [isDir, h.file]

theorem isDir_free : f.tree.isDir (d ++ [last']) = false := by
  simp [isDir, h.free]

theorem read?_eq : f.read? path = some content := by
  rw [Files.read?, h.path.node?_eq, h.file]

theorem moved (bytes : Bytes) : let after : Files :=
      { f with tree := setAside f.tree (d ++ [last]) (d ++ [last']) content bytes }
    after.read? path = some bytes ∧ after.read? name = some content ∧
      ∀ p, f.tree.locate? f.here p ≠ f.tree.locate? f.here path →
        f.tree.locate? f.here p ≠ f.tree.locate? f.here name → after.node? p = f.node? p := by
  have hl : d ++ [last] ≠ [] := by simp
  have hl' : d ++ [last'] ≠ [] := by simp
  have hget := get?_setAside h.sound hl hl' content bytes
  have hsame := sameDirs_setAside h.sound hl hl' content bytes h.isDir_file
    h.isDir_free
  have hne : last ≠ last' := by
    rintro rfl
    have := h.file.symm.trans h.free
    cases this
  intro after
  have hpath : after.FilePath path d last := h.path.withTree hsame
  have hname : after.FilePath name d last' := h.name.withTree hsame
  refine ⟨?_, ?_, ?_⟩
  · rw [Files.read?, hpath.node?_eq, hget, if_pos rfl]
  · rw [Files.read?, hname.node?_eq, hget, if_neg (by simpa using hne), if_pos rfl]
  · intro p hp hp'
    rw [h.path.locate?_eq] at hp
    rw [h.name.locate?_eq] at hp'
    have hlocate : after.tree.locate? after.here p = f.tree.locate? f.here p :=
      locate?_congr hsame f.here p
    unfold Files.node?
    rw [hlocate]
    cases hm : f.tree.locate? f.here p with
    | none => rfl
    | some m =>
      grind

/-- **Once the place of the copy is free, nothing can fail.** -/
theorem outcome_renew {s : Session} (hs : s.files = f) {members : Members} {id : String}
    {t : Text} {bytes : Bytes}
    (ht : (object (insert members "id" (str id))).encode { indent := some 4 } = .ok t)
    (hbytes : encodeUtf8? (t ++ "\n") = some bytes) :
    outcome (renew path name members id) s =
      (.ok (), { s with files :=
        { f with tree := setAside f.tree (d ++ [last]) (d ++ [last']) content bytes } }) := by
  subst hs
  have hdir := h.isDir_file
  have hdir' := h.isDir_free
  have herase := sameDirs_erase h.sound (by simp) hdir
  have hput := sameDirs_put (by simp) ((herase _).trans hdir') content
  have hput' := sameDirs_put (by simp) ((herase.trans hput _).trans hdir) []
  have hfirst := (h.name.withTree herase).write?_eq ((herase _).trans hdir') (.file content)
  have hsecond := (h.path.withTree (herase.trans hput)).write?_eq
    ((herase.trans hput _).trans hdir) (.file [])
  have hthird := (h.path.withTree ((herase.trans hput).trans hput')).write?_eq
    (((herase.trans hput).trans hput' _).trans hdir) (.file bytes)
  have hread : outcome (readBytes path) s = (.ok content, s) := by
    rw [outcome_readBytes, h.read?_eq]
  rw [renew, outcome_bind_ok hread, outcome_bind_ok (outcome_change (h.path.removeFile?_eq h.file)),
    outcome_bind_ok (outcome_writeBytes hfirst), ht]
  exact outcome_writeText hsecond hbytes hthird

end Movable

/-! ### The command -/

/-- A description without an identifier, and a free name for its copy. -/
def Ready (f : Files) (path : String) (members : Members) (name : String) : Prop :=
  Loads f path (.object members) ∧ contains members "id" = false ∧
    freeName? f (path ++ ".backup") = some name

variable {s : Session} {path name : String} {members : Members}

theorem outcome_identify_of_loads {v : Value} (h : Loads s.files path v) :
    outcome (identify path) s = outcome (identifyAs path v) s := by
  obtain ⟨content, hread, hdecode⟩ := h
  have hcontent : outcome (readBytes path) s = (.ok content, s) := by rw [outcome_readBytes, hread]
  rw [identify, outcome_bind_ok hcontent, hdecode]

theorem outcome_identify_of_not_loads (h : ¬ ∃ v, Loads s.files path v) :
    ∃ e, outcome (identify path) s = (.error e, s) := by
  rw [identify, outcome_bind, outcome_readBytes]
  cases hread : s.files.read? path with
  | none => exact ⟨_, rfl⟩
  | some content =>
    dsimp only
    cases hdecode : decodeUtf8 content with
    | ok v => exact absurd ⟨v, content, hread, hdecode⟩ h
    | error e =>
      dsimp only
      cases e.message? (bytesSource content) with
      | none => exact ⟨_, rfl⟩
      | some m => exact ⟨_, rfl⟩

theorem outcome_drawIdentifier : outcome drawIdentifier s = (.ok (newIdentifier s.random), s) := rfl

theorem outcome_hasKey {key : Text} {v : Value} {found : Bool} (h : hasKey key v = .ok found) :
    outcome (Session.ofExcept .defect (hasKey key v)) s = (.ok found, s) := by
  rw [outcome_ofExcept, h]
  rfl

theorem outcome_identifyAs_of_contains (hid : contains members "id") :
    outcome (identifyAs path (.object members)) s = (.ok false, s) := by
  have hkey : hasKey "id" (.object members) = .ok true := by rw [hasKey, hid]
  rw [identifyAs, outcome_bind_ok (outcome_hasKey hkey)]
  rfl

variable (s path) in
/-- A description without an identifier is renewed if there is a name for its copy. -/
theorem outcome_identifyAs_object (hid : contains members "id" = false) :
    ∃ printed message, outcome (identifyAs path (.object members)) s =
      match freeName? s.files (path ++ ".backup") with
      | some name => outcome (do renew path name members (newIdentifier s.random); return true)
          { s with printedErrors := printed }
      | none => (.error (.failed (.unsuitable message)), { s with printedErrors := printed }) := by
  have hkey : hasKey "id" (.object members) = .ok false := by rw [hasKey, hid]
  rw [identifyAs, outcome_bind_ok (outcome_hasKey hkey), if_neg (by simp),
    outcome_bind_ok (outcome_printError _), outcome_bind_ok outcome_drawIdentifier]
  dsimp only
  rw [outcome_bind_ok outcome_currentFiles]
  cases freeName? s.files (path ++ ".backup") with
  | none => exact ⟨_, _, rfl⟩
  | some name => exact ⟨_, [], rfl⟩

/-- **Only a description that is ready is touched.**  Any other is left alone, whether this is an
error or not. -/
theorem outcome_identify_of_not (h : ¬ ∃ members name, Ready s.files path members name) :
    (outcome (identify path) s).1 ≠ .ok true ∧ (outcome (identify path) s).2.files = s.files := by
  by_cases hloads : ∃ v, Loads s.files path v
  · obtain ⟨v, hv⟩ := hloads
    rw [outcome_identify_of_loads hv]
    cases hkey : hasKey "id" v with
    | error d =>
      rw [identifyAs, outcome_bind, outcome_ofExcept, hkey]
      exact ⟨nofun, rfl⟩
    | ok found =>
      cases found with
      | true =>
        rw [identifyAs, outcome_bind_ok (outcome_hasKey hkey)]
        exact ⟨nofun, rfl⟩
      | false =>
        cases v with
        | object members =>
          have hid : contains members "id" = false := Except.ok.inj hkey
          obtain ⟨printed, message, houtcome⟩ := outcome_identifyAs_object s path hid
          cases hname : freeName? s.files (path ++ ".backup") with
          | none =>
            rw [houtcome, hname]
            exact ⟨nofun, rfl⟩
          | some name => exact absurd ⟨members, name, hv, hid, hname⟩ h
        | _ =>
          rw [identifyAs, outcome_bind_ok (outcome_hasKey hkey)]
          exact ⟨nofun, rfl⟩
  · obtain ⟨e, he⟩ := outcome_identify_of_not_loads hloads
    rw [he]
    exact ⟨nofun, rfl⟩

/-! ### The result -/

/-- What has become of the files when a package has been given an identifier. -/
structure Identified (path name id : String) (members : Members) (content : Bytes)
    (before after : Files) : Prop where
  /-- The copy stands beside the description, where nothing stood. -/
  named : ∃ more, name = path ++ ".backup" ++ more
  free : before.contains name = false
  /-- It holds what the description held. -/
  original : before.read? path = some content
  copied : after.read? name = some content
  /-- The description has got an identifier in addition to what it had. -/
  described : Loads before path (.object members)
  lacking : contains members "id" = false
  identifier : IsIdentifier id
  renewed : ∃ v, Loads after path v ∧ v.Same (.object (insert members "id" (str id)))
  /-- Nothing else has changed. -/
  others : ∀ p, before.tree.locate? before.here p ≠ before.tree.locate? before.here path →
    before.tree.locate? before.here p ≠ before.tree.locate? before.here name →
    after.node? p = before.node? p

theorem exists_movable (htree : s.files.tree.Sound) (h : Ready s.files path members name) :
    ∃ d last last' content, Movable s.files path name d last last' content := by
  obtain ⟨⟨content, hread, -⟩, -, hname⟩ := h
  obtain ⟨hfree, more, rfl, hmore⟩ := freeName?_spec hname
  have hnode : s.files.node? path = some (.file content) := by
    unfold Files.read? at hread
    split at hread
    · rename_i hnode
      rw [hnode, some.inj hread]
    · cases hread
  obtain ⟨l, hl, hget⟩ := bind_eq_some_iff.1 hnode
  obtain ⟨d, last, rfl, hpath⟩ := Files.exists_filePath htree hl (by rw [hget]; rfl)
    (by simp [isDir, hget])
  have hplain : Path.Plain (last ++ (".backup" ++ more)) := by
    have hlen : 7 ≤ (last ++ (".backup" ++ more)).length := by
      simp only [String.length_append]
      have : ".backup".length = 7 := rfl
      omega
    refine ⟨?_, ?_, ?_⟩ <;>
      · intro heq
        rw [heq] at hlen
        revert hlen
        decide
  have hcopy := hpath.append (".backup" ++ more) (by simpa using hmore) hplain
  rw [← String.append_assoc] at hcopy
  refine ⟨d, last, _, content, htree, hpath, hcopy, hget, ?_⟩
  have hnone : s.files.node? (path ++ ".backup" ++ more) = none := by
    simpa [Files.contains] using hfree
  rwa [hcopy.node?_eq] at hnone

/-- The value that is written: the members with an identifier. -/
theorem exists_written (hkeys : (object members).DistinctKeys)
    (htexts : ∀ t, (object members).Occurs t → t.hasSurrogate = false) (id : String) :
    ∃ t bytes v, (object (insert members "id" (str id))).encode { indent := some 4 } = .ok t ∧
      encodeUtf8? (t ++ "\n") = some bytes ∧ decodeUtf8 bytes = .ok v ∧
      v.Same (.object (insert members "id" (str id))) := by
  obtain ⟨hnodup, hmembers⟩ : (keys members).Nodup ∧ ∀ m ∈ members, m.2.DistinctKeys := by
    cases hkeys
    exact ⟨by assumption, by assumption⟩
  have hdistinct : (object (insert members "id" (str id))).DistinctKeys := by
    refine .object (nodup_insert hnodup _ _) fun m hm => ?_
    rcases mem_of_mem_insert hm with rfl | hm
    · exact .text _
    · exact hmembers m hm
  have hhigh : ∀ {t : Text}, t.Characters → ∀ p ∈ t, p.isHighSurrogate = false := by
    intro t ht p hp
    have hpoint := CodePoint.isSurrogate_eq_false_iff.1 (ht p hp)
    rw [CodePoint.isHighSurrogate, Bool.and_eq_false_iff, decide_eq_false_iff_not,
      decide_eq_false_iff_not]
    omega
  have hwritable : (object (insert members "id" (str id))).Writable true := by
    intro _ t ht
    refine hhigh ?_
    obtain ⟨m, hm, hoccurs⟩ := occurs_object_iff.1 ht
    rcases mem_of_mem_insert hm with rfl | hm
    · rcases hoccurs with rfl | hoccurs
      · exact Text.characters_ofString "id"
      · rw [occurs_text_iff.1 hoccurs]
        exact Text.characters_ofString id
    · have hold := htexts t (occurs_object_iff.2 ⟨m, hm, hoccurs⟩)
      intro p hp
      simpa using List.any_eq_false.1 hold p hp
  have hstandard : ({ indent := some 4 } : Options).Standard :=
    ⟨rfl, ⟨[], [0x20], rfl, List.forall_mem_nil _, List.forall_mem_singleton.2 (by decide)⟩,
      ⟨[], [0x20], rfl, List.forall_mem_nil _, List.forall_mem_singleton.2 (by decide)⟩⟩
  have hascii : ({ indent := some 4 } : Options).Ascii :=
    ⟨rfl, shared_of_all (by decide), shared_of_all (by decide)⟩
  exact decode_encode_line hstandard hascii hdistinct hwritable

/-- A description that is ready is renewed, and no step of this can fail. -/
theorem outcome_identify_of_ready (htree : s.files.tree.Sound)
    (hrandom : identifierSize ≤ s.random.length)
    (htexts : ∀ v, Loads s.files path v → ∀ t, v.Occurs t → t.hasSurrogate = false)
    (h : Ready s.files path members name) :
    ∃ content s', outcome (identify path) s = (.ok true, s') ∧
      Identified path name (newIdentifier s.random) members content s.files s'.files := by
  obtain ⟨d, last, last', content, hmovable⟩ := exists_movable htree h
  obtain ⟨hloads, hlacking, hname⟩ := h
  obtain ⟨hfree, more, hmore, -⟩ := freeName?_spec hname
  have hkeys : (object members).DistinctKeys := by
    obtain ⟨_, -, hdecode⟩ := hloads
    exact distinctKeys_of_decodeUtf8 hdecode
  obtain ⟨t, bytes, v, ht, hbytes, hdecode, hsame⟩ :=
    exists_written hkeys (htexts _ hloads) (newIdentifier s.random)
  obtain ⟨hpath, hcopy, hothers⟩ := hmovable.moved bytes
  obtain ⟨printed, _, houtcome⟩ := outcome_identifyAs_object s path hlacking
  have hrenew := hmovable.outcome_renew (s := { s with printedErrors := printed }) rfl ht hbytes
  rw [hname] at houtcome
  have hrun := calc
    outcome (identify path) s = _ := (outcome_identify_of_loads hloads).trans houtcome
    _ = outcome (pure true) _ := outcome_bind_ok hrenew _
  refine ⟨content, _, hrun, ?_⟩
  exact
    { named := ⟨more, hmore⟩
      free := hfree
      original := hmovable.read?_eq
      copied := hcopy
      described := hloads
      lacking := hlacking
      identifier := isIdentifier_newIdentifier hrandom
      renewed := ⟨v, ⟨bytes, hpath, hdecode⟩, hsame⟩
      others := hothers }

theorem Identified.outcome_identify {id : String} {content : Bytes} {before : Files}
    (h : Identified path name id members content before s.files) :
    outcome (identify path) s = (.ok false, s) := by
  obtain ⟨v, hloads, hsame⟩ := h.renewed
  rw [outcome_identify_of_loads hloads]
  cases hsame with
  | object hcontains _ =>
    refine outcome_identifyAs_of_contains ?_
    rw [hcontains, contains, get?_insert, if_pos rfl]
    rfl

/-- **Giving an identifier is safe.**  If a package is not given one, for whatever reason, no file has
changed.  If it is, the old description is found under a new name, the new one is the old one with an
identifier, nothing else has changed, and from then on the description is left alone.  A package is
given an identifier whenever its description lacks one and there is a free name for the copy. -/
theorem identify_safe (htree : s.files.tree.Sound) (hrandom : identifierSize ≤ s.random.length)
    (htexts : ∀ v, Loads s.files path v → ∀ t, v.Occurs t → t.hasSurrogate = false)
    {r : Except Stop Bool} {s' : Session} (hrun : outcome (identify path) s = (r, s')) :
    (r ≠ .ok true → s'.files = s.files) ∧
    (r = .ok true →
      (∃ name id members content, Identified path name id members content s.files s'.files) ∧
      ∀ s'', s''.files = s'.files → outcome (identify path) s'' = (.ok false, s'')) ∧
    (r = .ok true ↔ ∃ members name, Ready s.files path members name) := by
  by_cases hready : ∃ members name, Ready s.files path members name
  · obtain ⟨members, name, h⟩ := hready
    obtain ⟨content, s₁, hrun₁, hidentified⟩ := outcome_identify_of_ready htree hrandom htexts h
    obtain ⟨rfl, rfl⟩ := Prod.mk.inj (hrun₁.symm.trans hrun)
    refine ⟨fun hne => absurd rfl hne, fun _ => ⟨⟨name, _, members, content, hidentified⟩, ?_⟩,
      fun _ => ⟨members, name, h⟩, fun _ => rfl⟩
    intro s'' hs''
    exact Identified.outcome_identify (hs'' ▸ hidentified)
  · obtain ⟨hresult, hfiles⟩ := outcome_identify_of_not hready
    grind

/-- The bytes of a description without an identifier: an object with the name `é`. -/
def namedOnly : Bytes :=
  [0x7B, 0x22, 0x6E, 0x61, 0x6D, 0x65, 0x22, 0x3A, 0x20, 0x22, 0xC3, 0xA9, 0x22, 0x7D]

/-- A package without an identifier, and with a copy of an earlier description. -/
def unidentified : Session where
  platform := "linux2"
  files := { tree := [(["p"], .dir), (["p", "package.json.backup"], .file []),
    (["p", "package.json"], .file namedOnly)] }
  random := [0, 16, 131, 16, 81, 135, 32, 146, 139, 48]

theorem loads_unidentified {v : Value} :
    Loads unidentified.files "/p/package.json" v ↔ v = .object [("name", .text "é")] := by
  have hread : unidentified.files.read? "/p/package.json" = some namedOnly := by decide +kernel
  have hdecode : decodeUtf8 namedOnly = .ok (.object [("name", .text "é")]) := by rfl
  constructor
  · rintro ⟨content, hcontent, hdecode'⟩
    grind
  · rintro rfl
    exact ⟨_, hread, hdecode⟩

/-- The first name for the copy is taken, so the second one is used. -/
theorem identify_safe_unidentified :
    unidentified.files.tree.Sound ∧ identifierSize ≤ unidentified.random.length ∧
    (∀ v, Loads unidentified.files "/p/package.json" v → ∀ t, v.Occurs t → t.hasSurrogate = false) ∧
    ∃ s', outcome (identify "/p/package.json") unidentified = (.ok true, s') ∧
      (∃ name id members content,
        Identified "/p/package.json" name id members content unidentified.files s'.files) ∧
      ∀ s'', s''.files = s'.files → outcome (identify "/p/package.json") s'' = (.ok false, s'') := by
  have htree : unidentified.files.tree.Sound := by decide
  have hrandom : identifierSize ≤ unidentified.random.length := by decide
  have htexts : ∀ v, Loads unidentified.files "/p/package.json" v →
      ∀ t, v.Occurs t → t.hasSurrogate = false := by
    intro v hv t ht
    rw [loads_unidentified.1 hv] at ht
    have ht : t = "name" ∨ t = "é" := by simpa using ht
    rcases ht with rfl | rfl
    · decide
    · decide
  have hready : Ready unidentified.files "/p/package.json" [("name", .text "é")]
      "/p/package.json.backup-0" :=
    ⟨loads_unidentified.2 rfl, by decide, by decide +kernel⟩
  obtain ⟨r, s', hrun⟩ : ∃ r s', outcome (identify "/p/package.json") unidentified = (r, s') :=
    ⟨_, _, Prod.mk.eta.symm⟩
  obtain ⟨-, hdone, hiff⟩ := identify_safe htree hrandom htexts hrun
  grind

end AddonBuilder.Package
