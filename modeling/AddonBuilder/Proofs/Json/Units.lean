import AddonBuilder.Proofs.Json.Acceptance
import AddonBuilder.Proofs.Text.Integer
import AddonBuilder.Proofs.Text.Utf8

/-!
# Reading a text and reading its bytes

A parser over the UTF-8 bytes of a text stands at other positions than one over the text, and
decodes each run of a string on its own.
-/

namespace AddonBuilder.Json

open List Text Option

variable {t e run body rest : Text} {u b d p : CodePoint}

/-- A character that is read in the same way in a text and in bytes: one of ASCII that is none of the
separators `1C`..`1F`. -/
abbrev Shared (u : CodePoint) : Prop := IsShared u.val

/-- Whether the four characters after each `\u` are shared.  A backslash counts only inside a string,
where it takes the next character with it; `inside` tells where the text starts. -/
def sharedEscapes (inside : Bool) : Text → Bool
  | [] => true
  | c :: rest =>
    if !inside then sharedEscapes (c = 0x22) rest
    else if c = 0x22 then sharedEscapes false rest
    else if c = 0x5C then
      match rest with
      | [] => true
      | e :: rest =>
        if e = 0x75 then
          match rest with
          | a :: b :: c :: d :: rest =>
            ([a, b, c, d].all fun u => Shared u) && sharedEscapes true rest
          | short => short.all fun u => Shared u
        else sharedEscapes true rest
    else sharedEscapes true rest

theorem sharedEscapes_outside (c : CodePoint) (rest : Text) :
    sharedEscapes false (c :: rest) = sharedEscapes (c = 0x22) rest := by
  rw [sharedEscapes.eq_def]
  rfl

def Ordinary (u : CodePoint) : Prop := u.IsAscii ∧ u ≠ 0x22

instance (u : CodePoint) : Decidable (Ordinary u) := inferInstanceAs (Decidable (_ ∧ _))

theorem sharedEscapes_append {a : Text} (ha : ∀ u ∈ a, u ≠ 0x22) (b : Text) :
    sharedEscapes false (a ++ b) = sharedEscapes false b := by
  induction a with
  | nil => rfl
  | cons u a ih =>
    have hu : u ≠ 0x22 := ha u (by simp)
    rw [cons_append, sharedEscapes_outside, ← ih fun v hv => ha v (mem_cons_of_mem _ hv)]
    simp [hu]

theorem units_of_ordinary (ht : ∀ u ∈ t, Ordinary u) : t.units = t := by
  simpa using units_ascii_append (fun u hu => (ht u hu).1) []

theorem Blanks.ordinary {w : Text} (hw : Blanks w) : ∀ u ∈ w, Ordinary u := by
  intro u hu
  have hval : u.val = 0x20 ∨ 0x9 ≤ u.val ∧ u.val ≤ 0xD := by simpa [isAsciiBlank] using hw u hu
  refine ⟨?_, ?_⟩
  · show u.val < 0x80
    omega
  · rintro rfl
    revert hval
    decide

theorem Blanks.around {w w' : Text} (hw : Blanks w) (hu : Ordinary u) (hw' : Blanks w') :
    ∀ v ∈ w ++ u :: w', Ordinary v :=
  forall_mem_append.2 ⟨hw.ordinary, forall_mem_cons.2 ⟨hu, hw'.ordinary⟩⟩

theorem Blanks.between {w : Text} {v : CodePoint} (hw : Blanks w) (hu : Ordinary u)
    (hv : Ordinary v) : ∀ x ∈ u :: (w ++ [v]), Ordinary x :=
  forall_mem_cons.2 ⟨hu, hw.around hv (forall_mem_nil _)⟩

theorem ordinary_of_graphic (h : ∀ u ∈ t, Lexeme.Graphic u) : ∀ u ∈ t, Ordinary u := by
  intro u hu
  exact ⟨Nat.lt_trans (n := u.val) (h u hu).2.1 (by decide), (h u hu).2.2⟩

theorem Lexeme.Integer.ordinary_real {n f e : Text} (hn : Integer n) (hf : Fraction f)
    (he : Exponent e) : ∀ u ∈ n ++ (f ++ e), Ordinary u :=
  ordinary_of_graphic
    (forall_mem_append.2 ⟨hn.graphic, forall_mem_append.2 ⟨hf.graphic, he.graphic⟩⟩)

theorem eq_append_cons_of_units {before after : Text} (ht : t.Characters) (hu : u.IsAscii)
    (h : t.units = before ++ u :: after) :
    ∃ r rest : Text, t = r ++ u :: rest ∧ before = r.units ∧ after = rest.units := by
  induction t generalizing before with
  | nil => simp at h
  | cons c t ih =>
    have ht' : Characters t := fun v hv => ht v (mem_cons_of_mem _ hv)
    rw [units_cons, append_eq_append_iff] at h
    rcases h with ⟨before, rfl, h⟩ | ⟨_ | ⟨v, vs⟩, hc, h⟩
    · obtain ⟨r, rest, rfl, rfl, rfl⟩ := ih ht' h
      exact ⟨c :: r, rest, rfl, (units_cons _ _).symm, rfl⟩
    · have h : units t = [] ++ u :: after := h.symm
      obtain ⟨r, rest, rfl, hr, rfl⟩ := ih ht' h
      refine ⟨c :: r, rest, rfl, ?_, rfl⟩
      rw [units_cons, hc, ← hr, append_nil, append_nil]
    · -- the unit comes from the first character, which is then of ASCII
      obtain ⟨rfl, rfl⟩ := cons.inj h
      by_cases hascii : c.IsAscii
      · rw [CodePoint.units_ascii hascii] at hc
        cases before with
        | nil =>
          obtain ⟨rfl, rfl⟩ := cons.inj hc
          exact ⟨[], t, rfl, rfl, rfl⟩
        | cons => simp at hc
      · obtain ⟨x, xs, hunits, hwide⟩ := CodePoint.units_wide hascii (ht c (by simp))
        exact absurd hu (hwide u (by rw [← hunits, hc]; simp))

section Strings

def Plain (u : CodePoint) : Prop := u ≠ 0x22 ∧ u ≠ 0x5C ∧ ¬ u.val < 0x20

theorem fold_shared (hu : Shared u) :
    DigitSet.ascii.fold u.val = DigitSet.allScripts.fold u.val := by
  obtain ⟨hascii, hseparator⟩ : u.val < 0x80 ∧ ¬ (0x1C ≤ u.val ∧ u.val ≤ 0x1F) := hu
  have hsame : isBlank u.val = isAsciiBlank u.val := by
    rw [Bool.eq_iff_iff]
    simp [isBlank, isAsciiBlank]
    omega
  cases hblank : isAsciiBlank u.val with
  | true => simp [DigitSet.fold, DigitSet.isBlank, hsame, hblank]
  | false =>
    rw [DigitSet.fold_eq _ (hsame.trans hblank) hascii, DigitSet.fold_eq _ (hsame.trans hblank) hascii]

theorem quad?_shared {a c : CodePoint} (h : ∀ u ∈ [a, b, c, d], Shared u) :
    quad? .ascii a b c d = quad? .allScripts a b c d := by
  have hfold : [a.val, b.val, c.val, d.val].mapM DigitSet.ascii.fold =
      [a.val, b.val, c.val, d.val].mapM DigitSet.allScripts.fold := by
    simp [fold_shared (h a (by simp)), fold_shared (h b (by simp)), fold_shared (h c (by simp)),
      fold_shared (h d (by simp))]
  rw [quad?, integer?, hfold]
  rfl

/-- Characters outside ASCII end no run and make no escape. -/
theorem plain_of_wide (hu : ¬ u.IsAscii) : Plain u := by
  have hval : ¬ u.val < 0x80 := hu
  refine ⟨?_, ?_, by omega⟩ <;> rintro rfl <;> exact hu (by decide)

theorem shared_of_quad? {a c : CodePoint} {n : Int} (h : quad? .ascii a b c d = some n) :
    ∀ u ∈ [a, b, c, d], Shared u := by
  have hcodes := isShared_of_integer? h
  grind

theorem shared_of_simpleEscape? {e : CodePoint} (h : simpleEscape? e = some p) : Shared e := by
  apply Decidable.byContradiction
  intro he
  have hne : ∀ v : CodePoint, Shared v → e ≠ v := by
    rintro v hv rfl
    exact he hv
  simp [simpleEscape?, hne 0x22 (by decide), hne 0x5C (by decide), hne 0x2F (by decide),
    hne 0x62 (by decide), hne 0x66 (by decide), hne 0x6E (by decide), hne 0x72 (by decide),
    hne 0x74 (by decide)] at h

/-- An escape of shared characters is one in every mode that reads them alike. -/
theorem Escape.transfer {mode mode' : Mode} (h : Escape mode e p) (he : ∀ u ∈ e, Shared u)
    (hquad : ∀ {a b c d : CodePoint}, (∀ u ∈ [a, b, c, d], Shared u) →
      mode'.numerals.value? a b c d = mode.numerals.value? a b c d) : Escape mode' e p := by
  cases h with
  | letter hp => exact .letter hp
  | @number a b c d p n hn halone hp =>
    have hdigits : ∀ u ∈ [a, b, c, d], Shared u :=
      fun u hu => he u (mem_append_right [0x5C, 0x75] hu)
    exact .number ((hquad hdigits).trans hn) halone hp
  | @pair a b c d a' b' c' d' p high low hhigh hrange hlow hp =>
    have hdigits : ∀ u ∈ [a, b, c, d], Shared u := fun u hu =>
      he u (mem_append_left [0x5C, 0x75, a', b', c', d'] (mem_append_right [0x5C, 0x75] hu))
    have hdigits' : ∀ u ∈ [a', b', c', d'], Shared u :=
      fun u hu => he u (mem_append_right [0x5C, 0x75, a, b, c, d, 0x5C, 0x75] hu)
    exact .pair ((hquad hdigits).trans hhigh) hrange ((hquad hdigits').trans hlow) hp

/-- What is known of a text inside a string that starts with an escape. -/
theorem sharedEscapes_escape {mode : Mode} {after : Text} (h : Escape mode e p)
    (hescapes : sharedEscapes true (e ++ after)) :
    (∀ u ∈ e, Shared u) ∧ sharedEscapes true after := by
  have hstart : Shared 0x5C ∧ Shared 0x75 := by decide
  have hnumber : ∀ {a b c d : CodePoint} {rest : Text},
      sharedEscapes true (0x5C :: 0x75 :: a :: b :: c :: d :: rest) →
      (Shared a ∧ Shared b ∧ Shared c ∧ Shared d) ∧ sharedEscapes true rest := by
    intro a b c d rest hrest
    rw [sharedEscapes.eq_def] at hrest
    simpa [and_assoc] using hrest
  cases h with
  | @letter e p hp =>
    have hu : e ≠ 0x75 := by
      rintro rfl
      simp [simpleEscape?] at hp
    rw [sharedEscapes.eq_def] at hescapes
    refine ⟨?_, by simpa [hu] using hescapes⟩
    simpa [hstart] using shared_of_simpleEscape? hp
  | number =>
    obtain ⟨⟨ha, hb, hc, hd⟩, hafter⟩ := hnumber hescapes
    refine ⟨?_, hafter⟩
    simp [hstart, ha, hb, hc, hd]
  | pair =>
    obtain ⟨⟨ha, hb, hc, hd⟩, hmiddle⟩ := hnumber hescapes
    obtain ⟨⟨ha', hb', hc', hd'⟩, hafter⟩ := hnumber hmiddle
    refine ⟨?_, hafter⟩
    simp [hstart, ha, hb, hc, hd, ha', hb', hc', hd']

theorem plain_units (ht : t.Characters) : (∀ u ∈ t.units, Plain u) ↔ ∀ c ∈ t, Plain c := by
  have hunits : ∀ c ∈ t, (∀ u ∈ c.units, Plain u) ↔ Plain c := by
    intro c hc
    by_cases hascii : c.IsAscii
    · simp [CodePoint.units_ascii hascii]
    · obtain ⟨v, vs, hunits, hwide⟩ := CodePoint.units_wide hascii (ht c hc)
      exact iff_of_true (fun u hu => plain_of_wide (hwide u (hunits ▸ hu))) (plain_of_wide hascii)
  simp only [units, forall_mem_flatMap]
  exact forall₂_congr hunits

theorem StringBody.of_plain {mode : Mode} {units : Text} (h : ∀ u ∈ units, Plain u)
    (tail : StringBody mode (units.reverse ++ run) body t) :
    StringBody mode run (units ++ body) t := by
  induction units generalizing run with
  | nil => exact tail
  | cons u units ih =>
    obtain ⟨hquote, hback, hlow⟩ := h u (by simp)
    exact .plain hquote hback hlow
      (ih (fun v hv => h v (mem_cons_of_mem _ hv)) (by simpa using tail))

theorem StringBody.of_run {mode : Mode} {units r : Text} (h : ∀ u ∈ units, Plain u)
    (hr : mode.alphabet.chunk? units = some r)
    (tail : ∀ {run}, mode.alphabet.chunk? run.reverse = some r → StringBody mode run body t) :
    StringBody mode [] (units ++ body) t :=
  .of_plain h (tail (by simpa using hr))

/-- The modes in which a text and its bytes are read. -/
structure Modes (mode mode' : Mode) : Prop where
  text : mode.alphabet = .characters
  bytes : mode'.alphabet = .bytes .utf8
  inText : mode.numerals = .integers .allScripts
  inBytes : mode'.numerals = .integers .ascii
  strict : mode.strict = mode'.strict

variable {mode mode' : Mode} (hmodes : Modes mode mode')

include hmodes

theorem escape_iff (he : ∀ u ∈ e, Shared u) : Escape mode e p ↔ Escape mode' e p := by
  have hquad : ∀ {a b c d : CodePoint}, (∀ u ∈ [a, b, c, d], Shared u) →
      mode'.numerals.value? a b c d = mode.numerals.value? a b c d := by
    intro a b c d hshared
    rw [hmodes.inText, hmodes.inBytes]
    exact quad?_shared hshared
  exact ⟨fun h => h.transfer he hquad, fun h => h.transfer he fun hu => (hquad hu).symm⟩

theorem shared_of_escape (h : Escape mode' e p) : ∀ u ∈ e, Shared u := by
  have hstart : Shared 0x5C ∧ Shared 0x75 := by decide
  cases h with
  | letter hp =>
    intro u hu
    simp only [mem_cons, not_mem_nil, or_false] at hu
    rcases hu with rfl | rfl
    · exact hstart.1
    · exact shared_of_simpleEscape? hp
  | number hn _ _ =>
    rw [hmodes.inBytes] at hn
    have hdigits := shared_of_quad? hn
    simp only [forall_mem_cons] at hdigits ⊢
    exact ⟨hstart.1, hstart.2, hdigits⟩
  | pair hhigh _ hlow _ =>
    rw [hmodes.inBytes] at hhigh hlow
    have hdigits := shared_of_quad? hhigh
    have hdigits' := shared_of_quad? hlow
    grind

/-- A string of a text is one of its units; the plain characters before it are read with it. -/
theorem StringBody.units (h : StringBody mode run body t) (hrun : ∀ u ∈ run, Plain u)
    (hs : Characters (run.reverse ++ body)) (hescapes : sharedEscapes true (body ++ rest)) :
    StringBody mode' [] (units (run.reverse ++ body)) t ∧ sharedEscapes false rest := by
  have hflush : ∀ {run s body t : Text}, (∀ u ∈ run, Plain u) → Characters (run.reverse ++ s) →
      (∀ {run'}, mode'.alphabet.chunk? run'.reverse = some run.reverse →
        StringBody mode' run' body t) →
      StringBody mode' [] (Text.units run.reverse ++ body) t := by
    intro run s body t hrun hs tail
    have hrun' : Characters run.reverse := fun u hu => hs u (mem_append_left _ hu)
    refine .of_run ((plain_units hrun').2 (by simpa using hrun)) ?_ tail
    rw [hmodes.bytes, chunk?_units hrun']
  induction h with
  | close ht =>
    rw [hmodes.text] at ht
    obtain rfl := some.inj ht
    rw [units_append]
    rw [singleton_append, sharedEscapes.eq_def] at hescapes
    exact ⟨hflush hrun hs .close, by simpa using hescapes⟩
  | escape ht he tail ih =>
    rw [hmodes.text] at ht
    obtain rfl := some.inj ht
    rw [append_assoc] at hescapes
    obtain ⟨hascii, hafter⟩ := sharedEscapes_escape he hescapes
    obtain ⟨htail, hrest⟩ := ih (by simp)
      (fun u hu => hs u (mem_append_right _ (mem_append_right _ hu))) hafter
    rw [units_append, units_ascii_append fun u hu => (hascii u hu).1]
    exact ⟨hflush hrun hs fun h => .escape h ((escape_iff hmodes hascii).1 he) htail, hrest⟩
  | @control run t body s c hquote hback hlow hloose ht tail ih =>
    rw [hmodes.text] at ht
    obtain rfl := some.inj ht
    have hascii : c.IsAscii := Nat.lt_trans (n := c.val) hlow (by decide)
    rw [cons_append, sharedEscapes.eq_def] at hescapes
    obtain ⟨htail, hrest⟩ := ih (by simp)
      (fun u hu => hs u (mem_append_right _ (mem_cons_of_mem _ hu)))
      (by simpa [hquote, hback] using hescapes)
    rw [units_append, units_cons_ascii hascii]
    exact ⟨hflush hrun hs fun h => .control hquote hback hlow (hmodes.strict ▸ hloose) h htail, hrest⟩
  | @plain run body s c hquote hback hlow tail ih =>
    rw [cons_append, sharedEscapes.eq_def] at hescapes
    simpa using ih (forall_mem_cons.2 ⟨⟨hquote, hback, hlow⟩, hrun⟩) (by simpa using hs)
      (by simpa [hquote, hback] using hescapes)

theorem StringBody.of_units {s : Text} (h : StringBody mode' run body t) (hrun : ∀ u ∈ run, Plain u)
    (hs : s.Characters) (hunits : s.units = run.reverse ++ (body ++ rest)) :
    ∃ body' rest' : Text, s = body' ++ rest' ∧ rest = rest'.units ∧ StringBody mode [] body' t := by
  -- The run ends at a unit of ASCII, where the text is cut.
  have hflush : ∀ {s run t after : Text} {u : CodePoint}, u.IsAscii → s.Characters →
      (∀ u ∈ run, Plain u) → mode'.alphabet.chunk? run.reverse = some t →
      s.units = run.reverse ++ u :: after → ∃ rest : Text, s = t ++ u :: rest ∧
        after = rest.units ∧ rest.Characters ∧ ∀ {body s}, (∀ {run},
          mode.alphabet.chunk? run.reverse = some t → StringBody mode run body s) →
            StringBody mode [] (t ++ body) s := by
    intro s run t after u hu hs hrun ht hunits
    obtain ⟨r, rest, rfl, hr, rfl⟩ := eq_append_cons_of_units hs hu hunits
    have hr' : r.Characters := fun v hv => hs v (mem_append_left _ hv)
    rw [hr, hmodes.bytes, chunk?_units hr'] at ht
    obtain rfl := some.inj ht
    refine ⟨rest, rfl, rfl, fun v hv => hs v (mem_append_right _ (mem_cons_of_mem _ hv)), ?_⟩
    exact .of_run ((plain_units hr').1 (hr ▸ by simpa using hrun)) (by rw [hmodes.text]; rfl)
  induction h generalizing s with
  | close ht =>
    obtain ⟨after, rfl, hafter, -, hbody⟩ := hflush (by decide) hs hrun ht hunits
    exact ⟨_ ++ [0x22], after, by simp, hafter, hbody .close⟩
  | @escape run t e body s₁ p ht he tail ih =>
    have hascii := shared_of_escape hmodes he
    obtain ⟨e', rfl⟩ : ∃ e', e = 0x5C :: e' := by cases he <;> exact ⟨_, rfl⟩
    rw [append_assoc] at hunits
    obtain ⟨after, rfl, hafter, hchars, hbody⟩ := hflush (by decide) hs hrun ht hunits
    obtain ⟨after, rfl, hunits'⟩ := eq_append_of_units hchars
      (fun u hu => (hascii u (mem_cons_of_mem _ hu)).1) hafter.symm
    obtain ⟨body', rest', rfl, hrest, htail⟩ := ih (by simp)
      (fun u hu => hchars u (mem_append_right _ hu)) hunits'.symm
    exact ⟨t ++ (0x5C :: e' ++ body'), rest', by simp, hrest,
      hbody fun h => .escape h ((escape_iff hmodes hascii).2 he) htail⟩
  | @control run t body s₁ c hquote hback hlow hloose ht tail ih =>
    obtain ⟨after, rfl, hafter, hchars, hbody⟩ :=
      hflush (Nat.lt_trans (n := c.val) hlow (by decide)) hs hrun ht hunits
    obtain ⟨body', rest', rfl, hrest, htail⟩ := ih (by simp) hchars hafter.symm
    exact ⟨t ++ c :: body', rest', by simp, hrest,
      hbody fun h => .control hquote hback hlow (hmodes.strict ▸ hloose) h htail⟩
  | plain hquote hback hlow tail ih =>
    exact ih (forall_mem_cons.2 ⟨⟨hquote, hback, hlow⟩, hrun⟩) hs (by simpa using hunits)

end Strings

section Transfer

variable {mode mode' : Mode} {R : Text → Text → Prop} {α : Type} {r : Reading α} {p : Phrase α}
  {s x : Text} {a : α}

/-- Texts in two alphabets go together: where one goes on with ordinary units so does the other, and
where one has a string the other has one with the same meaning. -/
structure Transfers (mode mode' : Mode) (R : Text → Text → Prop) : Prop where
  ordinary : ∀ {a s x}, (∀ u ∈ a, Ordinary u) → R (a ++ s) x → ∃ y, x = a ++ y ∧ R s y
  token : ∀ {body t s x}, StringToken mode body t → R (0x22 :: (body ++ s)) x →
    ∃ body' y, x = 0x22 :: (body' ++ y) ∧ StringToken mode' body' t ∧ R s y
  nil : ∀ {x}, R [] x → x = []

/-- **A phrase at the start of one text is one at the start of the other.** -/
theorem Derives.transfer (hR : Transfers mode mode' R) (h : Derives mode r t p)
    (hx : R (t ++ rest) x) : ∃ t' y, x = t' ++ y ∧ R rest y ∧ Derives mode' r t' p := by
  have hnil : Blanks [] := forall_mem_nil _
  have hleaf : ∀ {t x rest : Text} {p : Phrase α}, (∀ u ∈ t, Ordinary u) → Derives mode' r t p →
      R (t ++ rest) x → ∃ t' y, x = t' ++ y ∧ R rest y ∧ Derives mode' r t' p := by
    intro t x rest p ht h hx
    obtain ⟨y, rfl, hy⟩ := hR.ordinary ht hx
    exact ⟨t, y, rfl, hy, h⟩
  induction h generalizing x rest with
  | constant k => exact hleaf (ordinary_of_graphic (graphic_of_mem_word k)) (.constant k) hx
  | integer hn => exact hleaf (ordinary_of_graphic hn.graphic) (.integer hn) hx
  | real hn hf he hreal => exact hleaf (hn.ordinary_real hf he) (.real hn hf he hreal) hx
  | string h =>
    obtain ⟨body, y, rfl, hbody, hy⟩ := hR.token h hx
    exact ⟨0x22 :: body, y, rfl, hy, .string hbody⟩
  | emptyArray hw => exact hleaf (hw.between (by decide) (by decide)) (.emptyArray hw) hx
  | emptyObject hw => exact hleaf (hw.between (by decide) (by decide)) (.emptyObject hw) hx
  | array hw _ ih =>
    rw [cons_append, append_assoc] at hx
    obtain ⟨y, rfl, hy⟩ := hR.ordinary (hnil.around (u := 0x5B) (by decide) hw) hx
    obtain ⟨body, z, rfl, hz, hbody⟩ := ih hy
    exact ⟨_, z, by simp, hz, .array hw hbody⟩
  | object hw _ ih =>
    rw [cons_append, append_assoc] at hx
    obtain ⟨y, rfl, hy⟩ := hR.ordinary (hnil.around (u := 0x7B) (by decide) hw) hx
    obtain ⟨body, z, rfl, hz, hbody⟩ := ih hy
    exact ⟨_, z, by simp, hz, .object hw hbody⟩
  | lastItem _ hw ih =>
    rw [append_assoc] at hx
    obtain ⟨t, y, rfl, hy, hitem⟩ := ih hx
    obtain ⟨z, rfl, hz⟩ := hR.ordinary (hw.around (u := 0x5D) (by decide) hnil) hy
    exact ⟨_, z, by simp, hz, .lastItem hitem hw⟩
  | item _ hw hw' _ ih ih' =>
    simp only [append_assoc, cons_append] at hx
    obtain ⟨t, x₁, rfl, h₁, hitem⟩ := ih hx
    obtain ⟨x₂, rfl, h₂⟩ := hR.ordinary hw.ordinary h₁
    obtain ⟨x₃, rfl, h₃⟩ := hR.ordinary (hnil.around (u := 0x2C) (by decide) hw') h₂
    obtain ⟨body, y, rfl, hy, hbody⟩ := ih' h₃
    exact ⟨_, y, by simp, hy, .item hitem hw hw' hbody⟩
  | lastMember hkey hw hw₁ _ hw₂ ih =>
    simp only [append_assoc, cons_append] at hx
    obtain ⟨k, x₁, rfl, hkey, h₁⟩ := hR.token hkey hx
    obtain ⟨x₂, rfl, h₂⟩ := hR.ordinary hw.ordinary h₁
    obtain ⟨x₃, rfl, h₃⟩ := hR.ordinary (hnil.around (u := 0x3A) (by decide) hw₁) h₂
    obtain ⟨t, x₄, rfl, h₄, hitem⟩ := ih h₃
    obtain ⟨y, rfl, hy⟩ := hR.ordinary (hw₂.around (u := 0x7D) (by decide) hnil) (by simpa using h₄)
    exact ⟨_, y, by simp, hy, .lastMember hkey hw hw₁ hitem hw₂⟩
  | member hkey hw hw₁ _ hw₂ hw₃ _ ih ih' =>
    simp only [append_assoc, cons_append] at hx
    obtain ⟨k, x₁, rfl, hkey, h₁⟩ := hR.token hkey hx
    obtain ⟨x₂, rfl, h₂⟩ := hR.ordinary hw.ordinary h₁
    obtain ⟨x₃, rfl, h₃⟩ := hR.ordinary (hnil.around (u := 0x3A) (by decide) hw₁) h₂
    obtain ⟨t, x₄, rfl, h₄, hitem⟩ := ih h₃
    obtain ⟨x₅, rfl, h₅⟩ := hR.ordinary hw₂.ordinary h₄
    obtain ⟨x₆, rfl, h₆⟩ := hR.ordinary (hnil.around (u := 0x2C) (by decide) hw₃) h₅
    obtain ⟨body, y, rfl, hy, hbody⟩ := ih' h₆
    exact ⟨_, y, by simp, hy, .member hkey hw hw₁ hitem hw₂ hw₃ hbody⟩

theorem Spells.transfer (hR : Transfers mode mode' R) (h : Spells mode r s a) (hx : R s x) :
    Spells mode' r x a := by
  obtain ⟨w, t, w', rfl, hw, hderives, hw'⟩ := h
  obtain ⟨x₁, rfl, h₁⟩ := hR.ordinary hw.ordinary hx
  obtain ⟨t', x₂, rfl, h₂, hderives⟩ := hderives.transfer hR h₁
  obtain ⟨x₃, rfl, h₃⟩ := hR.ordinary hw'.ordinary (by simpa using h₂ : R (w' ++ []) x₂)
  obtain rfl := hR.nil h₃
  exact ⟨w, t', w', by simp, hw, hderives, hw'⟩

end Transfer

section Phrases

variable {mode mode' : Mode} (hmodes : Modes mode mode') {s : Text}

include hmodes

theorem StringToken.units (h : StringToken mode body t) (hbody : body.Characters)
    (hescapes : sharedEscapes false (0x22 :: (body ++ rest))) :
    StringToken mode' body.units t ∧ sharedEscapes false rest := by
  rw [stringToken_iff] at h ⊢
  rw [sharedEscapes_outside] at hescapes
  exact h.units hmodes (by simp) hbody hescapes

theorem StringToken.of_units (h : StringToken mode' body t) (hs : s.Characters)
    (hunits : s.units = 0x22 :: (body ++ rest)) :
    ∃ body' rest' : Text, s = 0x22 :: (body' ++ rest') ∧ rest = rest'.units ∧
      rest'.Characters ∧ StringToken mode body' t := by
  obtain ⟨after, rfl, hafter⟩ := (units_eq_cons_iff hs (by decide)).1 hunits
  have hafter' : Characters after := fun u hu => hs u (mem_cons_of_mem _ hu)
  obtain ⟨body', rest', rfl, hrest, hbody⟩ := (stringToken_iff.1 h).of_units hmodes
    (by simp) hafter' hafter.symm
  exact ⟨body', rest', rfl, hrest, fun u hu => hafter' u (mem_append_right _ hu),
    stringToken_iff.2 hbody⟩

/-- A text of characters with shared characters in its escapes, and its units. -/
theorem transfers_units :
    Transfers mode mode' fun s x => s.Characters ∧ sharedEscapes false s ∧ x = s.units where
  ordinary := by
    rintro a s x ha ⟨hs, hescapes, rfl⟩
    rw [sharedEscapes_append fun u hu => (ha u hu).2] at hescapes
    rw [units_append, units_of_ordinary ha]
    exact ⟨_, rfl, (forall_mem_append.1 hs).2, hescapes, rfl⟩
  token := by
    rintro body t s x h ⟨hs, hescapes, rfl⟩
    obtain ⟨-, hs⟩ := forall_mem_cons.1 hs
    obtain ⟨hbody, hafter⟩ := h.units hmodes (forall_mem_append.1 hs).1 hescapes
    rw [units_cons_ascii (by decide), units_append]
    exact ⟨_, _, rfl, hbody, (forall_mem_append.1 hs).2, hafter, rfl⟩
  nil := by
    rintro x ⟨-, -, rfl⟩
    rfl

/-- The units of a text of characters, and the text. -/
theorem transfers_of_units : Transfers mode' mode fun x s => s.Characters ∧ s.units = x where
  ordinary := by
    rintro a _ s ha ⟨hs, hunits⟩
    obtain ⟨after, rfl, hafter⟩ := eq_append_of_units hs (fun u hu => (ha u hu).1) hunits
    exact ⟨after, rfl, (forall_mem_append.1 hs).2, hafter.symm⟩
  token := by
    rintro body t _ s h ⟨hs, hunits⟩
    obtain ⟨body', rest, rfl, hrest, hs, hbody⟩ := h.of_units hmodes hs hunits
    exact ⟨body', rest, rfl, hbody, hs, hrest.symm⟩
  nil := by
    rintro s ⟨hs, hunits⟩
    exact (units_eq_nil_iff hs).1 hunits

end Phrases

theorem decodeUtf8_eq_ok_iff {bytes : Bytes} {v : Value} :
    decodeUtf8 bytes = .ok v ↔
      Spells { alphabet := .bytes .utf8 } Value.reading (bytesSource bytes) v := by
  rw [← parseSource_iff]
  unfold decodeUtf8 Document.value
  cases parseSource { alphabet := .bytes .utf8 } (bytesSource bytes) with
  | error e => simp [Except.map]
  | ok d => simp [Except.map]

theorem modes_text_utf8 : Modes {} { alphabet := .bytes .utf8 } := ⟨rfl, rfl, rfl, rfl, rfl⟩

theorem decode_of_decodeUtf8 (ht : t.Characters) {v : Value}
    (h : decodeUtf8 (Codec.utf8OfString t.display) = .ok v) : decode t = .ok v := by
  rw [decodeUtf8_eq_ok_iff, Text.bytesSource_utf8OfString ht] at h
  exact decode_eq_ok_iff.2 (h.transfer (transfers_of_units modes_text_utf8) ⟨ht, rfl⟩)

theorem decodeUtf8_of_decode (ht : t.Characters) (hescapes : sharedEscapes false t) {v : Value}
    (h : decode t = .ok v) : decodeUtf8 (Codec.utf8OfString t.display) = .ok v := by
  rw [decodeUtf8_eq_ok_iff, Text.bytesSource_utf8OfString ht]
  exact (decode_eq_ok_iff.1 h).transfer (transfers_units modes_text_utf8) ⟨ht, hescapes, rfl⟩

/-- **Reading a text and reading its bytes agree.**  A text of characters whose `\u` escapes are of
ASCII, without separators, can be written in UTF-8, and is read to a value exactly if its bytes are
read to this value; otherwise both are refused. -/
theorem decodeUtf8_agrees {t : Text} (ht : t.hasSurrogate = false)
    (hescapes : sharedEscapes false t = true) :
    ∃ bytes, Codec.encodeUtf8? t = some bytes ∧
      ((∃ v, decode t = .ok v ∧ decodeUtf8 bytes = .ok v) ∨
        ∃ e e', decode t = .error e ∧ decodeUtf8 bytes = .error e') := by
  have hcharacters : t.Characters := by
    intro p hp
    simpa using any_eq_false.1 ht p hp
  refine ⟨_, Text.encodeUtf8?_eq hcharacters, ?_⟩
  cases hdecode : decode t with
  | ok v => exact .inl ⟨v, rfl, decodeUtf8_of_decode hcharacters hescapes hdecode⟩
  | error e =>
    cases hbytes : decodeUtf8 (Codec.utf8OfString t.display) with
    | error e' => exact .inr ⟨e, e', rfl, rfl⟩
    | ok v =>
      rw [decode_of_decodeUtf8 hcharacters hbytes] at hdecode
      cases hdecode

/-- An accent written as an escape, a sign of three bytes and one of four, in a key and in a value. -/
theorem decodeUtf8_agrees_accented : Text.hasSurrogate "\x7b\"\\u00e9€\": [\"😀\", 1]\x7d" = false ∧
    sharedEscapes false "\x7b\"\\u00e9€\": [\"😀\", 1]\x7d" = true ∧
    ∃ bytes, Codec.encodeUtf8? "\x7b\"\\u00e9€\": [\"😀\", 1]\x7d" = some bytes ∧
      ((∃ v, decode "\x7b\"\\u00e9€\": [\"😀\", 1]\x7d" = .ok v ∧ decodeUtf8 bytes = .ok v) ∨
        ∃ e e', decode "\x7b\"\\u00e9€\": [\"😀\", 1]\x7d" = .error e ∧
          decodeUtf8 bytes = .error e') :=
  ⟨by decide, by decide +kernel, decodeUtf8_agrees (by decide) (by decide +kernel)⟩

/-- A separator before the digits of an escape is white space in a text, and in bytes it is none. -/
theorem decode_separator : Text.hasSurrogate "\"\\u\x1c041\"" = false ∧
    ("\"\\u\x1c041\"" : Text).all (fun u => u.IsAscii) = true ∧
    decode "\"\\u\x1c041\"" = .ok (.text "A") ∧
    ∃ bytes e, Codec.encodeUtf8? "\"\\u\x1c041\"" = some bytes ∧ decodeUtf8 bytes = .error e := by
  have hcodes : ("\"\\u\x1c041\"" : Text) = [0x22, 0x5C, 0x75, 0x1C, 0x30, 0x34, 0x31, 0x22] := by
    decide +kernel
  refine ⟨by decide, by decide, ?_, [0x22, 0x5C, 0x75, 0x1C, 0x30, 0x34, 0x31, 0x22],
    .wrong .unicodeEscape 2, by decide +kernel, by rfl⟩
  rw [hcodes]
  rfl

end AddonBuilder.Json
