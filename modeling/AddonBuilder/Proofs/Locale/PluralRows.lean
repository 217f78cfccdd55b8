import AddonBuilder.Locale.Plural
import AddonBuilder.Proofs.Outcome
import AddonBuilder.Proofs.Text.Trim

/-!
# The rows of a table of plural forms

Normalising visits the keys that a table had at first and moves the value of each plural key into
the row of its main key.
-/

namespace AddonBuilder.Locale

open Json Text Assoc

/-! ## Plural keys -/

section PluralKeys

variable {key body m m' : Text} {f f' : String}

/-- The key of a plural form. -/
def pluralName (main : Text) (category : String) : Text :=
  main ++ ofString ("[" ++ category ++ "]")

theorem eq_of_pluralName_eq (hf : f ∈ categories) (hf' : f' ∈ categories)
    (h : pluralName m f = pluralName m' f') : f = f' ∧ m = m' := by
  have hapart : ∀ g ∈ categories, ∀ g' ∈ categories,
      ofString ("[" ++ g ++ "]") <:+ ofString ("[" ++ g' ++ "]") → g = g' := by decide
  have hend : ofString ("[" ++ f ++ "]") <:+ pluralName m f := List.suffix_append _ _
  have hend' : ofString ("[" ++ f' ++ "]") <:+ pluralName m f := h ▸ List.suffix_append _ _
  obtain rfl : f = f' := by
    rcases List.suffix_or_suffix_of_suffix hend hend' with hs | hs
    · exact hapart f hf f' hf' hs
    · exact (hapart f' hf' f hf hs).symm
  exact ⟨rfl, List.append_cancel_right h⟩

theorem findSome?_category :
    (categories.findSome? fun c => (dropEnd? (ofString ("[" ++ c ++ "]")) key).map (·, c)) =
      some (m, f) ↔ f ∈ categories ∧ key = pluralName m f := by
  generalize hend : categories.findSome? _ = found
  have hfound : ∀ {m f}, found = some (m, f) → f ∈ categories ∧ key = pluralName m f := by
    rintro m f rfl
    obtain ⟨c, hc, h⟩ := List.exists_of_findSome?_eq_some hend
    obtain ⟨rest, hrest, heq⟩ := Option.map_eq_some_iff.1 h
    cases heq
    exact ⟨hc, dropEnd?_eq_some_iff.1 hrest⟩
  refine ⟨hfound, ?_⟩
  rintro ⟨hf, hkey⟩
  cases found with
  | none =>
    have hnone := List.findSome?_eq_none_iff.1 hend f hf
    rw [Option.map_eq_none_iff, dropEnd?_eq_some_iff.2 hkey] at hnone
    cases hnone
  | some p =>
    obtain ⟨hf', hkey'⟩ := hfound rfl
    obtain ⟨rfl, rfl⟩ := eq_of_pluralName_eq hf hf' (hkey.symm.trans hkey')
    rfl

theorem dropFeed_eq_iff (hbody : 0x0A ∉ body) :
    (dropEnd? [0x0A] key).getD key = body ↔ key = body ∨ key = body ++ [0x0A] := by
  cases h : dropEnd? [0x0A] key with
  | none =>
    have hend : key ≠ body ++ [0x0A] := by
      intro heq
      rw [dropEnd?_eq_some_iff.2 heq] at h
      cases h
    simp [hend]
  | some rest =>
    rw [dropEnd?_eq_some_iff] at h
    have hne : key ≠ body := by
      rintro rfl
      exact hbody (h ▸ List.mem_append_right rest List.mem_cons_self)
    simp [h ▸ hne, h]

/-- The plural keys of a main key, which have no line feed except at their end. -/
theorem pluralKey?_eq_some_iff :
    pluralKey? key = some (m, f) ↔
      f ∈ categories ∧ 0x0A ∉ m ∧ (key = pluralName m f ∨ key = pluralName m f ++ [0x0A]) := by
  have hletters : ∀ f ∈ categories, 0x0A ∉ ofString ("[" ++ f ++ "]") := by decide
  simp only [pluralKey?]
  constructor
  · intro h
    split at h
    · cases h
    · rename_i hfeed
      obtain ⟨hf, hkey⟩ := findSome?_category.1 h
      rw [hkey] at hfeed
      have hname : 0x0A ∉ pluralName m f := by simpa using hfeed
      exact ⟨hf, fun hm => hname (List.mem_append_left _ hm), (dropFeed_eq_iff hname).1 hkey⟩
  · rintro ⟨hf, hm, hkey⟩
    have hname : 0x0A ∉ pluralName m f := by
      rw [pluralName, List.mem_append, not_or]
      exact ⟨hm, hletters f hf⟩
    rw [(dropFeed_eq_iff hname).2 hkey, if_neg (by simpa using hname)]
    exact findSome?_category.2 ⟨hf, rfl⟩

theorem pluralKey?_of_no_feed (hkey : 0x0A ∉ key) :
    pluralKey? key = some (m, f) ↔ f ∈ categories ∧ key = pluralName m f := by
  rw [pluralKey?_eq_some_iff]
  constructor
  · rintro ⟨hf, -, rfl | rfl⟩
    · exact ⟨hf, rfl⟩
    · simp at hkey
  · rintro ⟨hf, rfl⟩
    exact ⟨hf, fun hm => hkey (List.mem_append_left _ hm), .inl rfl⟩

theorem ne_of_pluralKey? (h : pluralKey? key = some (m, f)) : key ≠ m := by
  intro heq
  have hlen : key.length = m.length := congrArg List.length heq
  rcases (pluralKey?_eq_some_iff.1 h).2.2 with rfl | rfl
  · simp [pluralName, ofString] at hlen
  · simp [pluralName] at hlen

/-- The key is that of a plural form of the other key. -/
def IsFormOf (m key : Text) : Prop := (pluralKey? key).map Prod.fst = some m

instance (m key : Text) : Decidable (IsFormOf m key) := inferInstanceAs (Decidable (_ = some m))

theorem isFormOf_iff : IsFormOf m key ↔ ∃ f, pluralKey? key = some (m, f) := by
  simp [IsFormOf, Option.map_eq_some_iff]

end PluralKeys

/-! ## The forms in a row -/

def formsIn (row : Option Value) : Members := asForms (row.getD (.object []))

/-- What visiting a key with a given value does to the row of `m`. -/
def addForm (value : Text → Value) (m : Text) (row : Option Value) (key : Text) : Option Value :=
  match pluralKey? key with
  | some (main, category) =>
    if main = m then some (.object (insert (formsIn row) category (value key))) else row
  | none => row

section Row

variable {value : Text → Value} {m key : Text} {row : Option Value} {c : String} {keys : List Text}

theorem formsIn_object (forms : Members) : formsIn (some (.object forms)) = forms := rfl

theorem addForm_of_eq (h : pluralKey? key = some (m, c)) :
    addForm value m row key = some (.object (insert (formsIn row) c (value key))) := by
  rw [addForm, h]
  exact if_pos rfl

theorem addForm_of_not (h : ¬ IsFormOf m key) : addForm value m row key = row := by
  rw [addForm]
  split
  · rename_i main category hkey
    rw [if_neg]
    rintro rfl
    exact h (isFormOf_iff.2 ⟨category, hkey⟩)
  · rfl

theorem foldl_addForm_of_none (h : ∀ k ∈ keys, ¬ IsFormOf m k) :
    keys.foldl (addForm value m) row = row := by
  induction keys with
  | nil => rfl
  | cons k keys ih =>
    rw [List.foldl_cons, addForm_of_not (h k List.mem_cons_self)]
    exact ih fun k' hk' => h k' (List.mem_cons_of_mem _ hk')

theorem foldl_addForm_of_some (h : ∃ k ∈ keys, IsFormOf m k) :
    keys.foldl (addForm value m) row =
      some (.object (formsIn (keys.foldl (addForm value m) row))) := by
  induction keys using List.reverseRecOn with
  | nil => simp at h
  | append_singleton keys k ih =>
    rw [List.foldl_append, List.foldl_cons, List.foldl_nil]
    by_cases hk : IsFormOf m k
    · obtain ⟨c, hc⟩ := isFormOf_iff.1 hk
      rw [addForm_of_eq hc, formsIn_object]
    · rw [addForm_of_not hk]
      grind

/-- A form comes from one of its keys, or from the row as it was. -/
theorem get?_foldl_addForm (value : Text → Value) (m : Text) (row : Option Value) (keys : List Text)
    (f : Text) :
    (∃ k ∈ keys, ∃ c, pluralKey? k = some (m, c) ∧ ofString c = f ∧
        get? (formsIn (keys.foldl (addForm value m) row)) f = some (value k)) ∨
      (∀ k ∈ keys, ∀ c, pluralKey? k = some (m, c) → ofString c ≠ f) ∧
        get? (formsIn (keys.foldl (addForm value m) row)) f = get? (formsIn row) f := by
  induction keys using List.reverseRecOn with
  | nil => exact .inr ⟨by simp, rfl⟩
  | append_singleton keys k ih =>
    rw [List.foldl_append, List.foldl_cons, List.foldl_nil]
    by_cases hk : ∃ c, pluralKey? k = some (m, c) ∧ ofString c = f
    · obtain ⟨c, hc, hf⟩ := hk
      refine .inl ⟨k, by simp, c, hc, hf, ?_⟩
      rw [addForm_of_eq hc, formsIn_object, get?_insert, if_pos hf]
    · have hsame : get? (formsIn (addForm value m (keys.foldl (addForm value m) row) k)) f =
          get? (formsIn (keys.foldl (addForm value m) row)) f := by
        by_cases hform : IsFormOf m k
        · obtain ⟨c, hc⟩ := isFormOf_iff.1 hform
          rw [addForm_of_eq hc, formsIn_object, get?_insert, if_neg fun hf => hk ⟨c, hc, hf⟩]
        · rw [addForm_of_not hform]
      grind

end Row

/-! ## One key -/

section Step

variable {table result : Members} {key main : Text} {category : String}

def moved (table : Members) (key main : Text) (category : String) : Members :=
  erase (insert table main (.object (insert (formsIn (get? table main))
    category ((get? table key).getD .null)))) key

theorem absorb_plural (h : pluralKey? key = some (main, category)) :
    absorb table key =
      if contains table main then .ok (moved table key main category)
      else if contains table (pluralName main "other") then
        .ok (moved (insert table main (.object [])) key main category)
      else .error ⟨key, main⟩ := by
  have hother : main ++ ofString "[other]" = pluralName main "other" := rfl
  rw [absorb, h, contains]
  cases hmain : get? table main with
  | none =>
    simp only [hmain, hother, Option.isSome_none, Bool.false_eq_true, if_false]
    split <;> rfl
  | some v =>
    simp only [hmain, Option.isSome_some, if_true]
    rfl

/-- A form needs an object to go to, or the general form. -/
theorem absorb_eq_error_iff (h : pluralKey? key = some (main, category)) :
    (∃ e, absorb table key = .error e) ↔
      main ∉ keys table ∧ pluralName main "other" ∉ keys table := by
  rw [absorb_plural h, ← contains_iff, ← contains_iff]
  split
  · simp [*]
  · split <;> simp [*]

/-- A plural key is moved in the table, or in the table with an empty object for its main key. -/
theorem absorb_cases (hok : absorb table key = .ok result) :
    pluralKey? key = none ∧ result = table ∨
    ∃ main category base, pluralKey? key = some (main, category) ∧
      result = moved base key main category ∧
      (base = table ∨ get? table main = none ∧ base = insert table main (.object [])) := by
  cases h : pluralKey? key with
  | none =>
    rw [absorb, h] at hok
    cases hok
    exact .inl ⟨rfl, rfl⟩
  | some p =>
    rw [absorb_plural h] at hok
    split at hok
    · cases hok
      exact .inr ⟨_, _, _, rfl, rfl, .inl rfl⟩
    · rename_i hmain
      split at hok
      · cases hok
        refine .inr ⟨_, _, _, rfl, rfl, .inr ⟨?_, rfl⟩⟩
        rw [get?_eq_none_iff, ← contains_iff]
        exact hmain
      · cases hok

theorem get?_moved (hn : (keys table).Nodup) (m : Text) :
    get? (moved table key main category) m =
      if key = m then none
      else if main = m then
        some (.object (insert (formsIn (get? table main)) category ((get? table key).getD .null)))
      else get? table m := by
  rw [moved, get?_erase (nodup_insert hn _ _), get?_insert]

variable (hn : (keys table).Nodup) (hok : absorb table key = .ok result)

include hn hok

theorem nodup_absorb : (keys result).Nodup := by
  have hmoved : ∀ {base : Members} {key main category}, (keys base).Nodup →
      (keys (moved base key main category)).Nodup := fun hbase =>
    (keys_erase_sublist _ _).nodup (nodup_insert hbase _ _)
  rcases absorb_cases hok with ⟨-, rfl⟩ | ⟨main, category, base, -, rfl, rfl | ⟨-, rfl⟩⟩
  · exact hn
  · exact hmoved hn
  · exact hmoved (nodup_insert hn _ _)

/-- No plural form is left under its own key. -/
theorem get?_absorb_self (h : pluralKey? key ≠ none) : get? result key = none := by
  rcases absorb_cases hok with ⟨hnone, -⟩ | ⟨main, category, base, -, rfl, rfl | ⟨-, rfl⟩⟩
  · exact absurd hnone h
  · rw [get?_moved hn, if_pos rfl]
  · rw [get?_moved (nodup_insert hn _ _), if_pos rfl]

/-- **One key.**  The value of a plural key becomes a form in the row of its main key, and all other
rows stay. -/
theorem get?_absorb (value : Text → Value) (hvalue : value key = (get? table key).getD .null)
    {m : Text} (hm : m = key → pluralKey? m = none) :
    get? result m = addForm value m (get? table m) key := by
  rcases absorb_cases hok with ⟨hnone, rfl⟩ | ⟨main, category, base, hkey, rfl, hbase⟩
  · rw [addForm, hnone]
  · have hne : key ≠ m := by
      rintro rfl
      rw [hm rfl] at hkey
      cases hkey
    simp only [addForm, hkey, hvalue]
    rcases hbase with rfl | ⟨hnone, rfl⟩
    · rw [get?_moved hn, if_neg hne]
      split
      · rename_i hmain
        rw [hmain]
      · rfl
    · rw [get?_moved (nodup_insert hn _ _), get?_insert, get?_insert,
        get?_insert, if_pos rfl, if_neg (ne_of_pluralKey? hkey).symm, if_neg hne]
      split
      · rename_i hmain
        rw [← hmain, hnone]
        rfl
      · rfl

end Step

/-! ## Many keys -/

section Run

variable {table result : Members} {keys : List Text} (hn : (Assoc.keys table).Nodup)
  (hok : keys.foldlM absorb table = .ok result)

include hn hok

theorem nodup_run : (Assoc.keys result).Nodup :=
  foldlM_rel (R := fun a b => (Assoc.keys a).Nodup → (Assoc.keys b).Nodup) (fun _ h => h)
    (fun _ _ _ hab hbc h => hbc (hab h)) (fun _ _ _ _ hstep h => nodup_absorb h hstep) hok hn

/-- **The run on one row.**  A row that is not taken away gets the forms of the keys, one after
another.  A key that is no main key still has its first value when it is visited. -/
theorem get?_run (hkeys : keys.Nodup) {m : Text} (hm : m ∈ keys → pluralKey? m = none) :
    ∃ value : Text → Value,
      Assoc.get? result m = keys.foldl (addForm value m) (Assoc.get? table m) ∧
      ∀ k ∈ keys, (∀ k' ∈ keys, ¬ IsFormOf k k') → value k = (Assoc.get? table k).getD .null := by
  induction keys generalizing table with
  | nil =>
    obtain rfl : table = result := pure_ok_iff.1 hok
    exact ⟨fun _ => .null, rfl, by simp⟩
  | cons k keys ih =>
    rw [List.foldlM_cons] at hok
    obtain ⟨next, hnext, hok⟩ := bind_ok_iff.1 hok
    obtain ⟨hk, hkeys⟩ := List.nodup_cons.1 hkeys
    obtain ⟨value, hvalue, hstart⟩ := ih (nodup_absorb hn hnext) hok hkeys fun hmem =>
      hm (List.mem_cons_of_mem _ hmem)
    refine ⟨fun k' => if k' = k then (Assoc.get? table k).getD .null else value k', ?_, ?_⟩
    · rw [List.foldl_cons, ← get?_absorb hn hnext _ (if_pos rfl) fun heq =>
        hm (heq ▸ List.mem_cons_self), hvalue]
      refine List.foldl_ext _ _ _ fun row k' hk' => ?_
      have hne : k' ≠ k := fun heq => hk (heq ▸ hk')
      simp only [addForm, if_neg hne]
    · intro k' hk' hfree
      dsimp only
      split
      · rename_i heq
        rw [heq]
      · rename_i hne
        have hk' : k' ∈ keys := (List.mem_cons.1 hk').resolve_left hne
        rw [hstart k' hk' fun k'' hk'' => hfree k'' (List.mem_cons_of_mem _ hk''),
          get?_absorb hn hnext (fun _ => _) rfl fun heq => absurd heq hne,
          addForm_of_not (hfree k List.mem_cons_self)]

end Run

end AddonBuilder.Locale
