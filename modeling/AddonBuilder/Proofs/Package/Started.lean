import AddonBuilder.Proofs.Files.Growth
import AddonBuilder.Proofs.Json.Weight
import AddonBuilder.Proofs.Package.Identifier

/-!
# The description of a new package

A new package is described by a template that is filled in with a name, a title and an identifier,
just as they are.
-/

namespace AddonBuilder.Package

open Json Session Text Path List Assoc

/-! ### The template -/

variable {name t : Text} {members : Members} {c : Char} {n : String} {names : List String}
  {place : Option Text} {args : List Value} {f : Files}

def memberLine (key text : Text) : Text :=
  0x22 :: (key ++ 0x22 :: 0x3A :: 0x20 :: 0x22 :: (text ++ [0x22]))

/-- The lines of an object after its brace. -/
def memberLines : List (Text × Text) → Text
  | [] => [0x7D]
  | [e] => memberLine e.1 e.2 ++ [0x0A, 0x7D]
  | e :: rest => memberLine e.1 e.2 ++ 0x2C :: 0x0A :: 0x20 :: 0x20 :: memberLines rest

def newMembers (name title id : Text) : List (Text × Text) :=
  [("name", name), ("title", title), ("id", id), ("description", "a basic add-on"), ("author", ""),
    ("license", "MPL 2.0"), ("version", "0.1")]

theorem newManifest_eq (name title id : Text) :
    newManifest name title id =
      0x7B :: ([0x0A, 0x20, 0x20] ++ memberLines (newMembers name title id)) ++ [0x0A] := by
  simp only [newManifest, memberLines, newMembers, memberLine, append_assoc, cons_append]
  rfl

/-- Lines with texts that need no escapes are the members that they show. -/
theorem derives_memberLines {entries : List (Text × Text)} (hne : entries ≠ [])
    (h : ∀ e ∈ entries, (∀ p ∈ e.1, Unescaped p) ∧ ∀ p ∈ e.2, Unescaped p) :
    Derives {} Value.reading (memberLines entries)
      (.members (entries.map fun e => (e.1, .text e.2))) := by
  induction entries with
  | nil => exact absurd rfl hne
  | cons e rest ih =>
    obtain ⟨hkey, htext⟩ := h e mem_cons_self
    have hkey' := stringToken_iff_stringOf.2 (stringOf_unescaped hkey)
    have htext' : Derives {} Value.reading (0x22 :: (e.2 ++ [0x22])) (.document (.text e.2)) :=
      .string (stringToken_iff_stringOf.2 (stringOf_unescaped htext))
    have hblanks : Blanks [] ∧ Blanks [0x20] ∧ Blanks [0x0A] ∧ Blanks [0x0A, 0x20, 0x20] := by
      simp [Blanks, isAsciiBlank]
    obtain ⟨hnone, hblank, hline, hindent⟩ := hblanks
    cases rest with
    | nil =>
      have hlast := Derives.lastMember hkey' hnone hblank htext' hline
      simpa [memberLines, memberLine] using hlast
    | cons e' rest =>
      have hrest := ih (by simp) fun d hd => h d (mem_cons_of_mem e hd)
      have hmore := Derives.member hkey' hnone hblank htext' hnone hindent hrest
      simpa [memberLines, memberLine] using hmore

theorem nodup_newMembers (name title id : Text) :
    (keys ((newMembers name title id).map fun e => (e.1, Value.text e.2))).Nodup := by
  show (["name", "title", "id", "description", "author", "license", "version"] : List Text).Nodup
  decide

/-- The description of a new package is read as it is meant if its texts need no escapes. -/
theorem decode_newManifest {title id : Text} (hname : ∀ p ∈ name, Unescaped p)
    (htitle : ∀ p ∈ title, Unescaped p) (hid : ∀ p ∈ id, Unescaped p) :
    decode (newManifest name title id) =
      .ok (.object ((newMembers name title id).map fun e => (e.1, .text e.2))) := by
  have hclean : ∀ e ∈ newMembers name title id,
      (∀ p ∈ e.1, Unescaped p) ∧ ∀ p ∈ e.2, Unescaped p := by
    have hword : ∀ {t : Text}, t.all (fun p => decide (Unescaped p)) →
        ∀ p ∈ t, Unescaped p := fun h p hp => of_decide_eq_true (all_eq_true.1 h p hp)
    simp only [newMembers, forall_mem_cons]
    exact ⟨⟨hword (by decide), hname⟩, ⟨hword (by decide), htitle⟩, ⟨hword (by decide), hid⟩,
      ⟨hword (by decide), hword (by decide)⟩, ⟨hword (by decide), hword (by decide)⟩,
      ⟨hword (by decide), hword (by decide)⟩, ⟨hword (by decide), hword (by decide)⟩,
      forall_mem_nil _⟩
  have hderives := derives_memberLines (by simp [newMembers]) hclean
  rw [newManifest_eq]
  refine decode_eq_ok_iff.2 ⟨[], _, [0x0A], (nil_append _).symm, forall_mem_nil _, ?_, ?_⟩
  · rw [← ofList_of_nodup (nodup_newMembers name title id)]
    exact .object (w := [0x0A, 0x20, 0x20]) (by simp [Blanks, isAsciiBlank]) hderives
  · simp [Blanks, isAsciiBlank]

/-- Without a backslash there are no escapes. -/
theorem sharedEscapes_of_unescaped (h : 0x5C ∉ t) (inside : Bool) : sharedEscapes inside t := by
  fun_induction sharedEscapes inside t <;> simp_all

theorem sharedEscapes_newManifest {title id : Text} (hname : ∀ p ∈ name, Unescaped p)
    (htitle : ∀ p ∈ title, Unescaped p) (hid : ∀ p ∈ id, Unescaped p) :
    sharedEscapes false (newManifest name title id) := by
  have hplain : ∀ {t : Text}, (∀ p ∈ t, Unescaped p) → 0x5C ∉ t := fun ht hmem => (ht _ hmem).2.1 rfl
  refine sharedEscapes_of_unescaped ?_ false
  unfold newManifest
  simp only [mem_append, hplain hname, hplain htitle, hplain hid, or_false]
  decide

/-- The members give these texts as name, title and identifier. -/
def Names (members : Members) (name title id : Text) : Prop :=
  get? members "name" = some (.text name) ∧ get? members "title" = some (.text title) ∧
    get? members "id" = some (.text id)

theorem names_newMembers (name title id : Text) :
    Names ((newMembers name title id).map fun e => (e.1, .text e.2)) name title id := by
  have hget := get?_eq_some_iff (nodup_newMembers name title id)
  exact ⟨(hget _ _).2 (by simp [newMembers]), (hget _ _).2 (by simp [newMembers]),
    (hget _ _).2 (by simp [newMembers])⟩

/-- Around the three texts a description has only the one `u` of `author`. -/
theorem weigh_newManifest (name title id : Text) :
    weigh unitWeight (newManifest name title id) =
      weigh unitWeight name + weigh unitWeight title + weigh unitWeight id + 1 := by
  have hrest : weigh unitWeight (newManifest [] [] []) = 1 := by decide +kernel
  unfold newManifest at *
  simp only [weigh_append, weigh_nil] at *
  omega

/-- **A description names what was put into it only if nothing had to be escaped.**  Else the texts that
are found would weigh more than the description. -/
theorem unescaped_of_names {title id : Text}
    (hdecode : decode (newManifest name title id) = .ok (.object members))
    (hnames : Names members name title id) (hback : 0x5C ∈ title → 0x5C ∈ name) :
    ∀ p ∈ title, Unescaped p := by
  obtain ⟨hname, htitle, hid⟩ := hnames
  let found : List (Text × Text) := [("name", name), ("title", title), ("id", id)]
  have hkeys : (found.map Prod.fst).Nodup := by
    show (["name", "title", "id"] : List Text).Nodup
    decide
  have hweight := weight_found_le hdecode hkeys (by simp [found, hname, htitle, hid])
  simp only [found, map_cons, map_nil, sum_cons, sum_nil, weigh_newManifest, textWeight] at hweight
  intro p hp
  by_contra hheavy
  have hone : burden p ≠ 0 := fun h => hheavy (burden_eq_zero_iff.1 h)
  have htitle := le_weigh_of_mem (f := burden) hp
  by_cases hslash : p = 0x5C
  · -- A backslash is in the name, too, so there are two of them.
    subst hslash
    have hname := le_weigh_of_mem (f := burden) (hback hp)
    omega
  · have htwo : burden p = 2 := by
      unfold burden at hone ⊢
      rw [if_neg hslash] at hone ⊢
      exact if_pos (by_contra fun h => hone (if_neg h))
    omega

/-! ### Names and titles -/

theorem unescaped_ofChar_iff : Unescaped (.ofChar c) ↔ c ≠ '"' ∧ c ≠ '\\' ∧ 0x20 ≤ c.toNat := by
  have hpoint : ∀ d : Char, CodePoint.ofChar c = .ofChar d ↔ c = d := fun d =>
    ⟨Lexeme.ofChar_injective, congrArg _⟩
  exact and_congr (not_congr (hpoint '"')) (and_congr (not_congr (hpoint '\\')) Iff.rfl)

theorem isAlphanum_of_escaped (h : ¬ Unescaped (.ofChar c)) :
    c.toNat < 0x80 ∧ c.isAlphanum = false := by
  have hspecial : c.toNat = 0x22 ∨ c.toNat = 0x5C ∨ c.toNat < 0x20 := by
    by_contra hother
    simp only [not_or, Nat.not_lt] at hother
    refine h (unescaped_ofChar_iff.2 ⟨?_, ?_, hother.2.2⟩)
    · rintro rfl
      exact hother.1 rfl
    · rintro rfl
      exact hother.2.1 rfl
  have hsigns : ∀ n < 0x5D, n = 0x22 ∨ n = 0x5C ∨ n < 0x20 →
      (Char.ofNat n).isAlphanum = false := by decide
  have hsign := hsigns c.toNat (by omega) hspecial
  rw [Char.ofNat_toNat] at hsign
  exact ⟨by omega, hsign⟩

theorem toLower_eq_iff (hletter : c.isAlpha = false) (d : Char) : d.toLower = c ↔ d = c := by
  have hletters : ∀ n < 0x5B, (Char.ofNat n).isUpper → (Char.ofNat n).isAlpha ∧
      (Char.ofNat n).toLower.isAlpha := by decide
  by_cases hupper : d.val ≥ 'A'.val ∧ d.val ≤ 'Z'.val
  · have hd : d.toNat < 0x5B := Nat.lt_succ_of_le (UInt32.le_iff_toNat_le.1 hupper.2)
    have hboth := hletters d.toNat hd (by rw [Char.ofNat_toNat]; exact decide_eq_true hupper)
    rw [Char.ofNat_toNat] at hboth
    refine iff_of_false ?_ ?_ <;>
      · rintro rfl
        simp [hboth] at hletter
  · have hd : d.toLower = d := dif_neg hupper
    rw [hd]

/-- **What has to be escaped stays in lower case.** -/
theorem mem_lower_iff (k : Strings) (h : ¬ Unescaped (.ofChar c)) (s : String) :
    c ∈ (k.lower s).toList ↔ c ∈ s.toList := by
  obtain ⟨hascii, hsign⟩ := isAlphanum_of_escaped h
  have hletter : c.isAlpha = false := (Bool.or_eq_false_iff.1 hsign).1
  cases k with
  | bytes => simp [Strings.lower, toLower_eq_iff hletter]
  | characters =>
    rw [Strings.lower, lower, String.toList_ofList]
    exact mem_lowerFrom_iff hascii hletter [] s.toList

theorem unescaped_ofString_iff {s : String} :
    (∀ p ∈ ofString s, Unescaped p) ↔ ∀ c ∈ s.toList, Unescaped (.ofChar c) := by
  rw [ofString, forall_mem_map]

theorem unescaped_lower {k : Strings} {s : String} (h : ∀ p ∈ ofString s, Unescaped p) :
    ∀ p ∈ ofString (k.lower s), Unescaped p := by
  rw [unescaped_ofString_iff] at h ⊢
  intro c hc
  by_contra hescaped
  exact hescaped (h c ((mem_lower_iff k hescaped s).1 hc))

theorem backslash_mem_lower {k : Strings} {s : String} (h : 0x5C ∈ ofString s) :
    0x5C ∈ ofString (k.lower s) := by
  obtain ⟨c, hc, hpoint⟩ := mem_map.1 h
  have hescaped : ¬ Unescaped (.ofChar c) := fun hplain => hplain.2.1 hpoint
  exact mem_map.2 ⟨c, (mem_lower_iff k hescaped s).2 hc, hpoint⟩

theorem unescaped_newIdentifier (random : Bytes) :
    ∀ p ∈ ofString (newIdentifier random), Unescaped p := by
  rw [unescaped_ofString_iff, newIdentifier]
  intro c hc
  rw [String.toList_append, mem_append] at hc
  rcases hc with hc | hc
  · have hstart : "jid1-".toList.all (fun c => decide (Unescaped (.ofChar c))) := by decide
    exact of_decide_eq_true (all_eq_true.1 hstart c hc)
  · by_contra hescaped
    have hsign := (isAlphanum_of_escaped hescaped).2
    rw [String.toList_ofList] at hc
    rw [isAlphanum_of_mem_base64 _ c hc] at hsign
    cases hsign

/-! ### The command -/

variable {s s' : Session} {path title id : String} {l : Location}

theorem exists_after_print {α : Type} {next : Unit → Command α} {a : α}
    (h : outcome (print t >>= next) s = (.ok a, s')) :
    ∃ s₁, s₁.files = s.files ∧ s₁.strings = s.strings ∧ outcome (next ()) s₁ = (.ok a, s') := by
  rw [outcome_bind_ok (outcome_print t)] at h
  refine ⟨_, ?_, ?_, h⟩ <;> rfl

theorem holdsFile_of_writeText (hreaches : s.files.Reaches path l)
    (hn : IsName n) (h : outcome (writeText (join path n) t) s = (.ok (), s')) :
    ∃ bytes, Codec.encodeUtf8? t = some bytes ∧ s'.files.HoldsFile path n bytes := by
  obtain ⟨bytes, emptied, files, hempty, hbytes, hwrite, rfl⟩ := exists_of_outcome_writeText h
  obtain ⟨_, hreaches', -⟩ := Files.HoldsFile.of_write? hreaches hn hempty
  exact ⟨bytes, hbytes, .of_write? hreaches' hn hwrite⟩

/-- A file stays as it is when files with other names are written. -/
theorem holdsFile_writeText {q n' : String} {bytes : Bytes}
    (hfile : s.files.HoldsFile path n bytes) (hq : q.isEmpty = false) (hn' : IsName n')
    (hne : n' ≠ n) (h : outcome (writeText (join q n') t) s = (.ok (), s')) :
    s'.files.HoldsFile path n bytes := by
  obtain ⟨_, emptied, files, hempty, -, hwrite, rfl⟩ := exists_of_outcome_writeText h
  exact (hfile.write? hq hn' hne hempty).write? hq hn' hne hwrite

theorem reaches_of_forM_change {place : String → String}
    {message : String → Text} (hreaches : s.files.Reaches path l)
    (h : outcome (names.forM fun d => do
      change fun f => f.makeDir? (place d)
      print (message d)) s = (.ok (), s')) :
    s'.files.Reaches path l ∧ s'.random = s.random ∧ s'.strings = s.strings := by
  induction names generalizing s with
  | nil =>
    cases h
    exact ⟨hreaches, rfl, rfl⟩
  | cons d names ih =>
    obtain ⟨s₁, hfirst, hrest⟩ := outcome_forM_cons_ok_iff.1 h
    obtain ⟨_, s₂, hchange, hprint⟩ := outcome_bind_ok_iff.1 hfirst
    obtain ⟨files, hmake, rfl⟩ := outcome_change_ok_iff.1 hchange
    obtain ⟨_, hgrows⟩ := Files.exists_grows_of_makeDir? hmake
    obtain rfl := (Prod.mk.inj hprint).2
    obtain ⟨hreaches', hrandom, hstrings⟩ := ih (hreaches.grows hgrows) hrest
    exact ⟨hreaches', hrandom, hstrings⟩

/-- **What is made in an empty directory.** -/
theorem holdsFile_of_furnish (hreaches : s.files.Reaches path l)
    (h : outcome (furnish path title) s = (.ok id, s')) :
    id = newIdentifier s.random ∧
      ∃ bytes, Codec.encodeUtf8? (newManifest (s.strings.lower title) title id) = some bytes ∧
        s'.files.HoldsFile path "package.json" bytes := by
  rw [furnish, outcome_bind_ok_iff] at h
  obtain ⟨_, s₁, hdirs, h⟩ := h
  obtain ⟨hreaches, hrandom, hstrings⟩ := reaches_of_forM_change hreaches hdirs
  rw [outcome_bind_ok outcome_drawIdentifier] at h
  obtain ⟨s₂, hfiles, hstrings', h⟩ := exists_after_print h
  rw [outcome_bind_ok outcome_get] at h
  rw [← hfiles] at hreaches
  obtain ⟨_, s₃, hmanifest, h⟩ := outcome_bind_ok_iff.1 h
  obtain ⟨bytes, hbytes, hfile⟩ := holdsFile_of_writeText hreaches (by decide) hmanifest
  -- The description is in place; the two files that follow have other names.
  obtain ⟨s₄, hfiles, -, h⟩ := exists_after_print h
  rw [← hfiles] at hfile
  obtain ⟨_, s₅, htest, h⟩ := outcome_bind_ok_iff.1 h
  have hjoin : ∀ d n, joinAll path [d, n] = join (join path d) n := fun _ _ => rfl
  rw [hjoin] at htest
  have hfile := holdsFile_writeText hfile (IsName.bare_join (by decide) path).1
    (by decide) (by decide) htest
  obtain ⟨s₆, hfiles, -, h⟩ := exists_after_print h
  rw [← hfiles] at hfile
  obtain ⟨_, s₇, hmain, h⟩ := outcome_bind_ok_iff.1 h
  rw [hjoin] at hmain
  have hfile := holdsFile_writeText hfile (IsName.bare_join (by decide) path).1
    (by decide) (by decide) hmain
  obtain ⟨s₈, hfiles, -, h⟩ := exists_after_print h
  rw [← hfiles] at hfile
  cases h
  rw [hstrings', hstrings] at hbytes
  exact ⟨by rw [hrandom], bytes, hbytes, hfile⟩

def placeOf : List Value → Option Text
  | [_, .text t] => some t
  | _ => none

theorem of_outcome_namedPlace
    (h : outcome (namedPlace args) s = (.ok place, s')) : place = placeOf args ∧ s' = s := by
  unfold namedPlace at h
  unfold placeOf
  split at h
  · cases h
    exact ⟨rfl, rfl⟩
  · cases h
  · rename_i hother
    cases h
    split
    · exact absurd rfl (hother _ _)
    · exact ⟨rfl, rfl⟩

theorem of_outcome_makePlace (h : outcome (makePlace path place) s = (.ok (), s')) :
    s'.random = s.random ∧ s'.strings = s.strings := by
  cases place with
  | none =>
    cases h
    exact ⟨rfl, rfl⟩
  | some t =>
    rw [makePlace, outcome_bind_ok outcome_currentFiles] at h
    split at h
    · cases h
      exact ⟨rfl, rfl⟩
    · cases h
      exact ⟨rfl, rfl⟩

theorem files_of_outcome_tellReady
    (h : outcome (tellReady place) s = (.ok (), s')) : s'.files = s.files := by
  cases place with
  | none | some t =>
    obtain ⟨s₁, hfiles, -, h⟩ := exists_after_print h
    cases h
    exact hfiles

theorem exists_reaches_of_list? (h : f.list? path = some names) : ∃ l, f.Reaches path l := by
  obtain ⟨l, hl, hlist⟩ := Option.bind_eq_some_iff.1 h
  split at hlist
  · exact ⟨l, hl, ‹_›⟩
  · cases hlist

/-- **Where a package has been started there is a description of it.** -/
theorem holdsFile_of_start (h : outcome (start args) s = (.ok (some id), s')) :
    id = newIdentifier s.random ∧
      ∃ bytes, Codec.encodeUtf8? (newManifest (s.strings.lower (base s.files.herePath))
          (base s.files.herePath) id) = some bytes ∧
        s'.files.HoldsFile (placePath s.files.herePath (placeOf args)) "package.json" bytes := by
  rw [start, outcome_bind_ok outcome_currentFiles] at h
  dsimp only at h
  split at h
  · obtain ⟨_, _, -, h⟩ := outcome_bind_ok_iff.1 h
    cases h
  obtain ⟨place, s₁, hplace, h⟩ := outcome_bind_ok_iff.1 h
  obtain ⟨rfl, rfl⟩ := of_outcome_namedPlace hplace
  obtain ⟨_, s₂, hmake, h⟩ := outcome_bind_ok_iff.1 h
  obtain ⟨hrandom, hstrings⟩ := of_outcome_makePlace hmake
  rw [outcome_bind_ok outcome_currentFiles] at h
  obtain ⟨entries, s₃, hdemand, h⟩ := outcome_bind_ok_iff.1 h
  obtain ⟨hlist, rfl⟩ := outcome_demand_ok_iff.1 hdemand
  obtain ⟨l, hreaches⟩ := exists_reaches_of_list? hlist
  split at h
  · obtain ⟨_, _, -, h⟩ := outcome_bind_ok_iff.1 h
    cases h
  obtain ⟨id', s₄, hfurnish, h⟩ := outcome_bind_ok_iff.1 h
  obtain ⟨hid, bytes, hbytes, hfile⟩ := holdsFile_of_furnish hreaches hfurnish
  split at h
  · obtain ⟨_, _, hflaw, -⟩ := outcome_bind_ok_iff.1 h
    cases hflaw
  obtain ⟨_, s₅, hready, h⟩ := outcome_bind_ok_iff.1 h
  rw [← files_of_outcome_tellReady hready] at hfile
  cases h
  exact ⟨by rw [hid, hrandom], bytes, hstrings ▸ hbytes, hfile⟩

theorem characters_newManifest (name title id : String) :
    Characters (newManifest name title id) := by
  simp only [newManifest, ← ofString_append]
  exact characters_ofString _

theorem read?_of_start (h : outcome (start args) s = (.ok (some id), s')) :
    s'.files.read? (join (placePath s.files.herePath (placeOf args)) "package.json") =
      some (Codec.utf8OfString (newManifest (s.strings.lower (base s.files.herePath))
        (base s.files.herePath) id).display) := by
  obtain ⟨-, bytes, hbytes, hfile⟩ := holdsFile_of_start h
  rw [hfile.read?_eq (by decide), ← hbytes, encodeUtf8?_eq (characters_newManifest _ _ _)]

/-- A package in a directory whose name has a letter to escape is not described as it should be. -/
theorem unescaped_of_start (h : outcome (start args) s = (.ok (some id), s'))
    (hloads : Loads s'.files
      (join (placePath s.files.herePath (placeOf args)) "package.json") (.object members))
    (hnames : Names members (s.strings.lower (base s.files.herePath)) (base s.files.herePath) id) :
    ∀ c ∈ (base s.files.herePath).toList, Unescaped (.ofChar c) := by
  obtain ⟨content, hread, hdecode⟩ := hloads
  obtain rfl := Option.some.inj ((read?_of_start h).symm.trans hread)
  have hdecode := decode_of_decodeUtf8 (characters_newManifest _ _ _) hdecode
  exact unescaped_ofString_iff.1 (unescaped_of_names hdecode hnames backslash_mem_lower)

theorem outcome_identify_of_names {title id : Text}
    (hloads : Loads s.files path (.object members)) (hnames : Names members name title id) :
    outcome (identify path) s = (.ok false, s) := by
  rw [outcome_identify_of_loads hloads]
  apply outcome_identifyAs_of_contains
  rw [Assoc.contains, hnames.2.2]
  rfl

/-- A session in a directory of the given name, which is empty but for a hidden one. -/
def startingIn (name : String) : Session where
  platform := "linux2"
  files := { tree := [(["ws"], .dir), (["ws", name], .dir),
    (["ws", name, ".git"], .dir)], here := ["ws", name] }
  random := [0, 16, 131, 16, 81, 135, 32, 146, 139, 48]

theorem start_startingIn (name : String)
    (h : (outcome (start [.text "init"]) (startingIn name)).1.toOption =
      some (some "jid1-ABCDEFGHIJKLMA")) :
    ∃ s', outcome (start [.text "init"]) (startingIn name) =
      (.ok (some "jid1-ABCDEFGHIJKLMA"), s') :=
  ⟨_, Prod.ext (toOption_eq_some_iff.1 h) rfl⟩

end AddonBuilder.Package
