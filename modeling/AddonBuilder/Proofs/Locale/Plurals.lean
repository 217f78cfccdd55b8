import AddonBuilder.Proofs.Locale.PluralRows

/-!
# Normalised tables

Only the keys that a table had at first are visited.
-/

namespace AddonBuilder.Locale

open Json Text Assoc Option

/-! ## Leftovers -/

/-- The keys that are visited after a key, or all keys if it is not one of them. -/
def visitedAfter (keys : List Text) (m : Text) : List Text :=
  if m ∈ keys then (keys.dropWhile (· ≠ m)).tail else keys

theorem visitedAfter_append {before after : List Text} {m : Text} (h : m ∉ before) :
    visitedAfter (before ++ m :: after) m = after := by
  have hpass : ∀ k ∈ before, decide (k ≠ m) := fun k hk =>
    decide_eq_true fun heq => h (heq ▸ hk)
  rw [visitedAfter, if_pos (by simp), List.dropWhile_append_of_pos hpass,
    List.dropWhile_cons_of_neg (by simp)]
  rfl

theorem visitedAfter_subset (keys : List Text) (m : Text) : visitedAfter keys m ⊆ keys := by
  rw [visitedAfter]
  split
  · exact ((List.tail_sublist _).trans (List.dropWhile_sublist _)).subset
  · exact List.Subset.refl keys

section Leftovers

variable {table result : Members} {m : Text} (hn : (keys table).Nodup)
  (hok : normalisePlurals table = .ok result)

include hn hok

/-- The row of a plural key, or of a new key, has the forms that are visited after the key. -/
theorem get?_of_plural (hm : m ∈ keys table → pluralKey? m ≠ none) :
    ∃ value : Text → Value,
      get? result m = (visitedAfter (keys table) m).foldl (addForm value m) none := by
  by_cases hmem : m ∈ keys table
  · obtain ⟨before, after, hsplit, hbefore⟩ := List.eq_append_cons_of_mem hmem
    have hafter := (List.nodup_append.1 (hsplit ▸ hn)).2.1
    rw [normalisePlurals, hsplit, List.foldlM_append] at hok
    obtain ⟨visited, hvisited, hok⟩ := bind_ok_iff.1 hok
    rw [List.foldlM_cons] at hok
    obtain ⟨next, hnext, hok⟩ := bind_ok_iff.1 hok
    have hnodup := nodup_run hn hvisited
    obtain ⟨value, hvalue, -⟩ := get?_run (nodup_absorb hnodup hnext) hok hafter.of_cons fun h =>
      absurd h (List.nodup_cons.1 hafter).1
    rw [get?_absorb_self hnodup hnext (hm hmem)] at hvalue
    rw [hsplit, visitedAfter_append hbefore]
    exact ⟨value, hvalue⟩
  · obtain ⟨value, hvalue, -⟩ := get?_run hn hok hn fun h => absurd h hmem
    rw [(get?_eq_none_iff table m).2 hmem] at hvalue
    rw [visitedAfter, if_neg hmem]
    exact ⟨value, hvalue⟩

theorem mem_keys_of_plural (hm : pluralKey? m ≠ none) :
    m ∈ keys result ↔ ∃ k ∈ visitedAfter (keys table) m, IsFormOf m k := by
  obtain ⟨value, hvalue⟩ := get?_of_plural hn hok fun _ => hm
  rw [← contains_iff, contains, hvalue]
  by_cases h : ∃ k ∈ visitedAfter (keys table) m, IsFormOf m k
  · rw [foldl_addForm_of_some h]
    simpa using h
  · rw [foldl_addForm_of_none fun k hk hform => h ⟨k, hk, hform⟩]
    simpa using h

/-- An object has a form `other` if its key had a text of its own that stays, or if a key for that form
is visited after it. -/
theorem mem_other_iff (htexts : ∀ v ∈ values table, ∃ t, v = .text t) {forms : Members}
    (hforms : get? result m = some (.object forms)) :
    ofString "other" ∈ keys forms ↔
      m ∈ keys table ∧ pluralKey? m = none ∨
        ∃ k ∈ visitedAfter (keys table) m, pluralKey? k = some (m, "other") := by
  have hname : ∀ c ∈ categories, ofString c = ofString "other" → c = "other" := by decide
  rw [← contains_iff, contains]
  by_cases hm : m ∈ keys table ∧ pluralKey? m = none
  · obtain ⟨value, hvalue, -⟩ := get?_run hn hok hn fun _ => hm.2
    obtain ⟨v, hv⟩ := isSome_iff_exists.1 (contains_iff.2 hm.1)
    obtain ⟨t, rfl⟩ := htexts v (List.mem_map.2 ⟨_, mem_of_get? hv, rfl⟩)
    have hget := get?_foldl_addForm value m (get? table m) (keys table) "other"
    rw [← hvalue, hforms, formsIn_object, hv] at hget
    refine iff_of_true ?_ (.inl hm)
    rcases hget with ⟨k, -, c, -, -, hget⟩ | ⟨-, hget⟩
    · rw [hget]
      rfl
    · rw [hget]
      rfl
  · obtain ⟨value, hvalue⟩ := get?_of_plural hn hok fun hmem hnone => hm ⟨hmem, hnone⟩
    have hget := get?_foldl_addForm value m none (visitedAfter (keys table) m) "other"
    rw [← hvalue, hforms, formsIn_object] at hget
    rcases hget with ⟨k, hk, c, hc, hother, hget⟩ | ⟨hnone, hget⟩
    · obtain rfl := hname c (pluralKey?_eq_some_iff.1 hc).1 hother
      rw [hget]
      exact iff_of_true rfl (.inr ⟨k, hk, hc⟩)
    · rw [hget]
      refine iff_of_false Bool.false_ne_true ?_
      rintro (hmain | ⟨k, hk, hkey⟩)
      · exact hm hmain
      · exact hnone k hk "other" hkey rfl

end Leftovers

/-! ## Tables without forms of forms -/

/-- No plural key is the main key of another. -/
def Flat (table : Members) : Prop :=
  ∀ k ∈ keys table, (pluralKey? k).bind (fun p => pluralKey? p.1) = none

section Flat

variable {table result : Members} {m k : Text} (hflat : Flat table)

include hflat

theorem Flat.main (hk : k ∈ keys table) (hform : IsFormOf m k) : pluralKey? m = none := by
  obtain ⟨c, hc⟩ := isFormOf_iff.1 hform
  simpa [hc] using hflat k hk

theorem Flat.not_isFormOf (hm : pluralKey? m ≠ none) (hk : k ∈ keys table) : ¬ IsFormOf m k :=
  fun hform => hm (hflat.main hk hform)

variable (hn : (keys table).Nodup)

include hn

/-- A key fails if it is the first one of a main key that lacks a general form. -/
theorem Flat.absorb_eq_error_iff {before after : List Text}
    (hsplit : keys table = before ++ k :: after) {visited : Members}
    (hok : before.foldlM absorb table = .ok visited) (hk : IsFormOf m k) :
    (∃ e, absorb visited k = .error e) ↔
      (m ∉ keys table ∧ pluralName m "other" ∉ keys table) ∧ ∀ k' ∈ before, ¬ IsFormOf m k' := by
  obtain ⟨c, hc⟩ := isFormOf_iff.1 hk
  have hother : pluralKey? (pluralName m "other") = some (m, "other") :=
    pluralKey?_eq_some_iff.2 ⟨by decide, (pluralKey?_eq_some_iff.1 hc).2.1, .inl rfl⟩
  have hsub : before ⊆ keys table := hsplit ▸ List.subset_append_left _ _
  have hbefore : before.Nodup := (List.nodup_append.1 (hsplit ▸ hn)).1
  obtain ⟨value, hvalue, -⟩ := get?_run hn hok hbefore fun _ =>
    hflat.main (by simp [hsplit] : k ∈ keys table) hk
  -- The key for the form `other` is a form itself, so it has not been visited if no form has.
  have hrow : (∀ k' ∈ before, ¬ IsFormOf m k') →
      get? visited (pluralName m "other") = get? table (pluralName m "other") := by
    intro hnone
    obtain ⟨value', hvalue', -⟩ := get?_run hn hok hbefore fun h =>
      absurd (isFormOf_iff.2 ⟨_, hother⟩) (hnone _ h)
    rw [hvalue', foldl_addForm_of_none fun k' hk' => hflat.not_isFormOf (by simp [hother]) (hsub hk')]
  simp only [Locale.absorb_eq_error_iff hc, ← get?_eq_none_iff, hvalue]
  constructor
  · rintro ⟨hmain, hgeneral⟩
    have hnone : ∀ k' ∈ before, ¬ IsFormOf m k' := by
      intro k' hk' hform'
      rw [foldl_addForm_of_some ⟨k', hk', hform'⟩] at hmain
      cases hmain
    rw [foldl_addForm_of_none hnone] at hmain
    exact ⟨⟨hmain, hrow hnone ▸ hgeneral⟩, hnone⟩
  · rintro ⟨⟨hmain, hgeneral⟩, hnone⟩
    rw [foldl_addForm_of_none hnone, hrow hnone]
    exact ⟨hmain, hgeneral⟩

/-- Normalising fails exactly if some key with forms has no general form. -/
theorem Flat.fails_iff :
    (∃ e, normalisePlurals table = .error e) ↔
      ∃ m, (∃ k ∈ keys table, IsFormOf m k) ∧ m ∉ keys table ∧
        pluralName m "other" ∉ keys table := by
  constructor
  · rintro ⟨e, h⟩
    obtain ⟨before, k, after, visited, hsplit, hok, hfail⟩ := exists_of_foldlM_eq_error h
    cases hk : pluralKey? k with
    | none =>
      rw [absorb, hk] at hfail
      cases hfail
    | some p =>
      have hform : IsFormOf p.1 k := isFormOf_iff.2 ⟨p.2, hk⟩
      have hlacks := ((hflat.absorb_eq_error_iff hn hsplit hok hform).1 ⟨e, hfail⟩).1
      exact ⟨p.1, ⟨k, by simp [hsplit], hform⟩, hlacks⟩
  · rintro ⟨m, ⟨k, hk, hform⟩, hlacks⟩
    rcases all_or_exists (fun k => !decide (IsFormOf m k)) (keys table) with
      hall | ⟨before, first, after, hsplit, hfirst, hbefore⟩
    · simpa [hform] using hall k hk
    · rw [normalisePlurals, hsplit, List.foldlM_append]
      cases hok : before.foldlM absorb table with
      | error e => exact ⟨e, rfl⟩
      | ok visited =>
        obtain ⟨e, he⟩ := (hflat.absorb_eq_error_iff hn hsplit hok (m := m) (by simpa using hfirst)).2
          ⟨hlacks, by simpa using hbefore⟩
        rw [ok_bind, List.foldlM_cons, he]
        exact ⟨e, rfl⟩

variable (hok : normalisePlurals table = .ok result)

include hok

theorem Flat.rows (hm : pluralKey? m = none) :
    ∃ value : Text → Value, get? result m = (keys table).foldl (addForm value m) (get? table m) ∧
      ∀ k ∈ keys table, pluralKey? k ≠ none → get? table k = some (value k) := by
  obtain ⟨value, hvalue, hstart⟩ := get?_run hn hok hn fun _ => hm
  refine ⟨value, hvalue, fun k hk hplural => ?_⟩
  obtain ⟨v, hv⟩ := isSome_iff_exists.1 (contains_iff.2 hk)
  rw [hstart k hk fun k' hk' => hflat.not_isFormOf hplural hk', hv, getD_some]

theorem Flat.no_leftovers (htexts : ∀ v ∈ values table, ∃ t, v = .text t) :
    (∀ m ∈ keys result, pluralKey? m = none) ∧
      ∀ m forms, get? result m = some (.object forms) → ofString "other" ∈ keys forms := by
  have hgeneral : ∀ m ∈ keys result, pluralKey? m = none := by
    intro m hm
    by_contra hplural
    obtain ⟨k, hk, hform⟩ := (mem_keys_of_plural hn hok hplural).1 hm
    exact hflat.not_isFormOf hplural (visitedAfter_subset _ _ hk) hform
  refine ⟨hgeneral, fun m forms hforms => (mem_other_iff hn hok htexts hforms).2 ?_⟩
  have hm : pluralKey? m = none := hgeneral m (contains_iff.1 (contains_of_get? hforms))
  by_cases hmem : m ∈ keys table
  · exact .inl ⟨hmem, hm⟩
  obtain ⟨value, hvalue, -⟩ := get?_run hn hok hn fun _ => hm
  have hform : ∃ k ∈ keys table, IsFormOf m k := by
    by_contra hnone
    rw [foldl_addForm_of_none fun k hk hk' => hnone ⟨k, hk, hk'⟩,
      (get?_eq_none_iff table m).2 hmem, hforms] at hvalue
    cases hvalue
  have hother : pluralName m "other" ∈ keys table := by
    by_contra hlacks
    obtain ⟨e, he⟩ := (hflat.fails_iff hn).2 ⟨m, hform, hmem, hlacks⟩
    rw [hok] at he
    cases he
  obtain ⟨k, -, hk⟩ := hform
  obtain ⟨c, hc⟩ := isFormOf_iff.1 hk
  refine .inr ⟨pluralName m "other", by rwa [visitedAfter, if_neg hmem], ?_⟩
  exact pluralKey?_eq_some_iff.2 ⟨by decide, (pluralKey?_eq_some_iff.1 hc).2.1, .inl rfl⟩

end Flat

/-- **Leftovers.**  A plural key stays in the table exactly if one of its own forms is visited after it,
or if it was no key of the table and has a form.  An object lacks the form `other` exactly if its key
had no text of its own that stays and no key for that form is visited after it.  In a table without
forms of forms neither happens. -/
theorem normalisePlurals_leftovers {table result : Members} (hn : (keys table).Nodup)
    (htexts : ∀ v ∈ values table, ∃ t, v = .text t) (hok : normalisePlurals table = .ok result) :
    (∀ m, pluralKey? m ≠ none →
      (m ∈ keys result ↔ ∃ k ∈ visitedAfter (keys table) m, IsFormOf m k)) ∧
    (∀ m forms, get? result m = some (.object forms) →
      (ofString "other" ∈ keys forms ↔
        m ∈ keys table ∧ pluralKey? m = none ∨
          ∃ k ∈ visitedAfter (keys table) m, pluralKey? k = some (m, "other"))) ∧
    (Flat table → (∀ m ∈ keys result, pluralKey? m = none) ∧
      ∀ m forms, get? result m = some (.object forms) → ofString "other" ∈ keys forms) := by
  refine ⟨fun m hm => ?_, fun m forms hforms => ?_, fun hflat => ?_⟩
  · exact mem_keys_of_plural hn hok hm
  · exact mem_other_iff hn hok htexts hforms
  · exact hflat.no_leftovers hn hok htexts

/-- The form `other` of `a[other]` is visited, and then that of `a` is looked for. -/
def nested : Members := [("a[other][other]", .text "x"), ("a[one]", .text "y")]

/-- The key `a[other]` is left over, and passes for a form of `a` that is never added. -/
theorem nested_left_over :
    normalisePlurals nested =
        .ok [("a[other]", .object [("other", .text "x")]), ("a", .object [("one", .text "y")])] ∧
      pluralKey? "a[other]" = some (ofString "a", "other") ∧
      ofString "other" ∉ keys [(ofString "one", Value.text "y")] :=
  ⟨rfl, by decide, by decide⟩

/-- A form of a form is left over, and the form it is named for is missing. -/
theorem nested_leftovers :
    (keys nested).Nodup ∧ (∀ v ∈ values nested, ∃ t, v = .text t) ∧
      ∃ result, normalisePlurals nested = .ok result ∧ ofString "a[other]" ∈ keys result ∧
        ∀ forms, get? result "a" = some (.object forms) → ofString "other" ∉ keys forms := by
  have hn : (keys nested).Nodup := by decide
  have htexts : ∀ v ∈ values nested, ∃ t, v = .text t := by simp [values, nested]
  obtain ⟨result, hok⟩ : ∃ result, normalisePlurals nested = .ok result := ⟨_, rfl⟩
  obtain ⟨hkeys, hothers, -⟩ := normalisePlurals_leftovers hn htexts hok
  refine ⟨hn, htexts, result, hok, ?_, fun forms hforms => ?_⟩
  · exact (hkeys "a[other]" (by decide)).2 ⟨"a[other][other]", by decide, by decide⟩
  · exact (hothers "a" forms hforms).not.2 (by decide)

/-! ## Tables as maps -/

/-- What normalising makes of a table, both read as maps. -/
structure Normalised (rows result : Text → Option Value) : Prop where
  general : ∀ m, ∀ f ∈ categories, result (pluralName m f) = none
  /-- The forms of a key are collected, its own text standing in for the form `other`. -/
  forms : ∀ m, (∃ f ∈ categories, rows (pluralName m f) ≠ none) →
    ∃ forms, result m = some (.object forms) ∧
      (∀ f ∈ categories, get? forms f =
        (rows (pluralName m f)).or (if f = "other" then rows m else none)) ∧
      ∀ f ∈ keys forms, f ∈ categories.map ofString
  others : ∀ k, (∀ f ∈ categories, rows (pluralName k f) = none) →
    (∀ m, ∀ f ∈ categories, k ≠ pluralName m f) → result k = rows k

/-- A table of texts under keys without line feeds, in which no plural key is the main key of
another. -/
structure Plain (table : Members) : Prop where
  nodup : (keys table).Nodup
  texts : ∀ v ∈ values table, ∃ t, v = .text t
  no_feed : ∀ k ∈ keys table, 0x0A ∉ k
  flat : Flat table

section Plain

variable {table result : Members} {m k : Text} (h : Plain table)

include h

theorem Plain.perm {shuffled : Members} (hperm : shuffled.Perm table) : Plain shuffled := by
  have hkeys : (keys shuffled).Perm (keys table) := hperm.map Prod.fst
  have hvalues : (values shuffled).Perm (values table) := hperm.map Prod.snd
  exact ⟨hkeys.nodup_iff.2 h.nodup, fun v hv => h.texts v (hvalues.mem_iff.1 hv),
    fun k hk => h.no_feed k (hkeys.mem_iff.1 hk), fun k hk => h.flat k (hkeys.mem_iff.1 hk)⟩

theorem Plain.isFormOf_iff (hk : k ∈ keys table) :
    IsFormOf m k ↔ ∃ f ∈ categories, k = pluralName m f := by
  rw [Locale.isFormOf_iff]
  exact exists_congr fun f => pluralKey?_of_no_feed (h.no_feed k hk)

theorem Plain.exists_form_iff :
    (∃ k ∈ keys table, IsFormOf m k) ↔ ∃ f ∈ categories, get? table (pluralName m f) ≠ none := by
  simp only [ne_eq, get?_eq_none_iff, Decidable.not_not]
  constructor
  · rintro ⟨k, hk, hform⟩
    obtain ⟨f, hf, rfl⟩ := (h.isFormOf_iff hk).1 hform
    exact ⟨f, hf, hk⟩
  · rintro ⟨f, hf, hk⟩
    exact ⟨_, hk, (h.isFormOf_iff hk).2 ⟨f, hf, rfl⟩⟩

theorem Plain.get?_formsIn (m f : Text) :
    get? (formsIn (get? table m)) f =
      if f = ofString "other" then get? table m else none := by
  cases hrow : get? table m with
  | none => simp [formsIn, asForms]
  | some v =>
    obtain ⟨t, rfl⟩ := h.texts v (List.mem_map.2 ⟨_, mem_of_get? hrow, rfl⟩)
    simp only [formsIn, asForms, getD_some, get?, eq_comm]

variable (hok : normalisePlurals table = .ok result)

include hok

theorem Plain.forms (hm : ∃ f ∈ categories, get? table (pluralName m f) ≠ none) :
    ∃ forms, get? result m = some (.object forms) ∧
      (∀ f ∈ categories, get? forms f = (get? table (pluralName m f)).or
        (if f = "other" then get? table m else none)) ∧
      ∀ f ∈ keys forms, f ∈ categories.map ofString := by
  have hname : ∀ f ∈ categories, ∀ f' ∈ categories, ofString f = ofString f' → f = f' := by
    decide
  obtain ⟨k, hk, hform⟩ := h.exists_form_iff.2 hm
  obtain ⟨value, hvalue, hstart⟩ := h.flat.rows h.nodup hok (h.flat.main hk hform)
  have hget := get?_foldl_addForm value m (get? table m) (keys table)
  rw [foldl_addForm_of_some ⟨k, hk, hform⟩] at hvalue
  refine ⟨_, hvalue, fun f hf => ?_, fun f hf => ?_⟩
  · rcases hget f with ⟨k, hk, c, hc, hcf, hget⟩ | ⟨hnone, hget⟩
    · obtain ⟨hc', rfl⟩ := (pluralKey?_of_no_feed (h.no_feed k hk)).1 hc
      obtain rfl := hname c hc' f hf hcf
      rw [hget, hstart _ hk (by simp [hc]), some_or]
    · have hmissing : get? table (pluralName m f) = none := by
        rw [get?_eq_none_iff]
        intro hmem
        exact hnone _ hmem f ((pluralKey?_of_no_feed (h.no_feed _ hmem)).2 ⟨hf, rfl⟩) rfl
      rw [hget, h.get?_formsIn, hmissing, none_or]
      exact if_congr ⟨hname f hf "other" (by decide), congrArg ofString⟩ rfl rfl
  · rcases hget f with ⟨k, hk, c, hc, rfl, -⟩ | ⟨-, hget⟩
    · exact List.mem_map.2 ⟨c, (pluralKey?_eq_some_iff.1 hc).1, rfl⟩
    · by_contra hnot
      have hother : f ≠ ofString "other" := fun heq => hnot (heq ▸ by decide)
      rw [h.get?_formsIn, if_neg hother, get?_eq_none_iff] at hget
      exact hget hf

theorem Plain.normalised : Normalised (get? table) (get? result) := by
  refine ⟨fun m f hf => ?_, fun m => h.forms hok, fun k hnone hk => ?_⟩
  · have hplural : ∀ {k}, 0x0A ∉ k → k = pluralName m f → pluralKey? k ≠ none := by
      intro k hk heq
      simp [(pluralKey?_of_no_feed hk).2 ⟨hf, heq⟩]
    obtain ⟨value, hvalue⟩ := get?_of_plural h.nodup hok fun hmem =>
      hplural (h.no_feed (pluralName m f) hmem) rfl
    rw [hvalue, foldl_addForm_of_none]
    intro k hk hform
    have hmem := visitedAfter_subset _ _ hk
    obtain ⟨f', -, rfl⟩ := (h.isFormOf_iff hmem).1 hform
    exact hplural (fun hfeed => h.no_feed _ hmem (List.mem_append_left _ hfeed)) rfl
      (h.flat.main hmem hform)
  · obtain ⟨value, hvalue, -⟩ := get?_run h.nodup hok h.nodup (m := k) fun hmem => by
      rw [eq_none_iff_forall_ne_some]
      rintro ⟨m, f⟩ hplural
      obtain ⟨hf, heq⟩ := (pluralKey?_of_no_feed (h.no_feed k hmem)).1 hplural
      exact hk m f hf heq
    rw [hvalue, foldl_addForm_of_none]
    intro k' hk' hform
    obtain ⟨f, hf, hget⟩ := h.exists_form_iff.1 ⟨k', hk', hform⟩
    exact hget (hnone f hf)

end Plain

/-- **Plural forms.**  Normalising a plain table fails exactly if a key with forms has neither a text of
its own nor a form `other`, and otherwise collects the forms of each key.  Both are told by the table
as a map, so the order of its keys does not matter. -/
theorem normalisePlurals_plain {table shuffled : Members} (h : Plain table)
    (hperm : shuffled.Perm table) :
    ((∃ e, normalisePlurals shuffled = .error e) ↔
      ∃ m, ∃ f ∈ categories, pluralName m f ∈ keys table ∧ m ∉ keys table ∧
        pluralName m "other" ∉ keys table) ∧
    ∀ result, normalisePlurals shuffled = .ok result → Normalised (get? table) (get? result) := by
  have hrows : get? shuffled = get? table := funext (get?_perm hperm h.nodup)
  have hshuffled := h.perm hperm
  constructor
  · simp only [hshuffled.flat.fails_iff hshuffled.nodup, hshuffled.exists_form_iff,
      ← get?_eq_none_iff, hrows]
    simp only [ne_eq, get?_eq_none_iff, Decidable.not_not, ← exists_and_right, and_assoc]
  · intro result hok
    rw [← hrows]
    exact hshuffled.normalised hok

/-- A key with a text and a form, a key with the form `other` only, and a key without forms. -/
def fruits : Members :=
  [("apple[one]", .text "x"), ("pear[other]", .text "y"), ("apple", .text "z"), ("fig", .text "w")]

/-- The order of the texts does not matter. -/
theorem normalisePlurals_fruits :
    Plain fruits ∧ fruits.reverse.Perm fruits ∧ ∃ result,
      normalisePlurals fruits.reverse = .ok result ∧ Normalised (get? fruits) (get? result) := by
  have hplain : Plain fruits := by
    refine ⟨by decide, by simp [values, fruits], by decide, ?_⟩
    intro k hk
    revert k
    decide
  have hperm : fruits.reverse.Perm fruits := List.reverse_perm fruits
  exact ⟨hplain, hperm, _, rfl, (normalisePlurals_plain hplain hperm).2 _ rfl⟩

end AddonBuilder.Locale
