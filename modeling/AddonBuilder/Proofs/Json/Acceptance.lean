import AddonBuilder.Proofs.Json.Grammar
import AddonBuilder.Proofs.Outcome

/-!
# The parser accepts exactly the grammar

Two inductions meet here.
-/

namespace AddonBuilder.Json

open List Document Cursor

variable {w s : Text} {mode : Mode} {index : Int} {d : Document} {α : Type}

namespace Parser

variable {mode : Mode} {fuel pos : Nat} {n rest body t t' w : Text} {ds : List Document}
  {u : CodePoint} {d : Document} {α : Type} {c c' : Cursor}

/-- A cursor that has gone over a text stands at another place. -/
def Passes (c : Cursor) (t : Text) (c' : Cursor) : Prop :=
  c.rest = t ++ c'.rest ∧ c'.pos = c.pos + t.length

theorem Passes.trans {c'' : Cursor} (h : Passes c t c')
    (h' : Passes c' t' c'') : Passes c (t ++ t') c'' := by
  refine ⟨?_, ?_⟩
  · rw [h.1, h'.1, append_assoc]
  · rw [h'.2, h.2, length_append, Nat.add_assoc]

theorem passes_append_iff : Passes c (t ++ t') c' ↔ ∃ m, Passes c t m ∧ Passes m t' c' := by
  constructor
  · rintro ⟨hrest, hposition⟩
    rw [append_assoc] at hrest
    rw [length_append, ← Nat.add_assoc] at hposition
    exact ⟨⟨c.pos + t.length, t' ++ c'.rest⟩, ⟨hrest, rfl⟩, rfl, hposition⟩
  · rintro ⟨m, h, h'⟩
    exact h.trans h'

theorem head?_of_starts (h : starts c u) : c.rest.head? = some u := by
  simpa [starts] using h

theorem passes_starts (h : starts c u) : Passes c [u] (c.advance 1) := by
  obtain ⟨pos, rest⟩ := c
  cases rest with
  | nil => simp [starts] at h
  | cons v rest =>
    obtain rfl : v = u := by simpa [starts] using h
    exact ⟨rfl, rfl⟩

theorem Passes.eq_advance (h : Passes c t c') : c' = c.advance t.length := by
  obtain ⟨pos, rest⟩ := c'
  obtain ⟨hrest, rfl⟩ := h
  simp [advance, hrest]

theorem passes_nil_iff : Passes c [] c' ↔ c' = c := by
  constructor
  · intro h
    exact h.eq_advance
  · rintro rfl
    exact ⟨rfl, rfl⟩

theorem passes_cons_iff : Passes c (u :: t) c' ↔ starts c u ∧ Passes (c.advance 1) t c' := by
  constructor
  · intro h
    have hstarts : starts c u := by simp [starts, h.1]
    obtain ⟨m, hm, h'⟩ : ∃ m, Passes c [u] m ∧ Passes m t c' := passes_append_iff.1 h
    rw [hm.eq_advance] at h'
    exact ⟨hstarts, h'⟩
  · rintro ⟨hstarts, h⟩
    exact (passes_starts hstarts).trans h

theorem passes_skipBlanks (c : Cursor) : ∃ w, Blanks w ∧ Passes c w c.skipBlanks := by
  let blank : CodePoint → Bool := fun u => Text.isAsciiBlank u.val
  have hrest : c.rest = c.rest.takeWhile blank ++ c.rest.drop (c.rest.takeWhile blank).length :=
    (prefix_iff_eq_append.1 (List.takeWhile_prefix blank)).symm
  exact ⟨c.rest.takeWhile blank, all_eq_true.1 all_takeWhile, hrest, rfl⟩

theorem Passes.skipBlanks (h : Passes c w c') (hw : Blanks w)
    (hrest : ∀ u ∈ c'.rest.head?, Text.isAsciiBlank u.val = false) : c.skipBlanks = c' := by
  have htake : c.rest.takeWhile (fun u => Text.isAsciiBlank u.val) = w := by
    rw [h.1, takeWhile_append_of_pos hw]
    cases hc : c'.rest with
    | nil => simp
    | cons u rest => simp [hrest u (by rw [hc]; rfl)]
  rw [h.eq_advance, Cursor.skipBlanks, htake]

theorem Passes.skipBlanks_starts (h : Passes c w c') (hw : Blanks w) (hc : starts c' u)
    (hu : Text.isAsciiBlank u.val = false) : c.skipBlanks = c' := by
  refine h.skipBlanks hw fun v hv => ?_
  obtain rfl : u = v := Option.some.inj ((head?_of_starts hc).symm.trans hv)
  exact hu

theorem passes_scanString
    (h : scanString mode c = .ok (t, c')) : ∃ body, Passes c body c' ∧ StringToken mode body t := by
  obtain ⟨body, hrest, hposition, htoken⟩ := token_of_scanString h
  exact ⟨body, ⟨hrest, hposition⟩, htoken⟩

theorem Passes.scanString (h : Passes c body c') (htoken : StringToken mode body t) :
    Json.scanString mode c = .ok (t, c') := by
  obtain ⟨pos, rest⟩ := c'
  obtain ⟨hrest, rfl⟩ := h
  have hscan := scanString_of_token htoken c.pos rest
  rwa [← hrest] at hscan

/-- A text that starts with the integer part of a number. -/
def Numeric (t : Text) : Prop := ∃ n after, Lexeme.Integer n ∧ t = n ++ after

/-- What it takes for a phrase to be parsed: the parser needs as much fuel as the phrase has units,
and comes to stand right after the phrase.  Only a number has to be delimited: more digits would
belong to it.  Members are parsed from after the first quote on. -/
def Parses (mode : Mode) {α : Type} (r : Reading α) (t : Text) : Phrase α → Prop
  | .document a => ∀ (fuel : Nat) (c c' : Cursor), Passes c t c' → t.length ≤ fuel →
      (Numeric t → Delimits c'.rest) →
      ∃ d : Document, d.read r = a ∧ value mode (fuel + 1) c = .ok (some (d, c'))
  | .items l => ∀ (fuel : Nat) (c c' : Cursor), Passes c t c' → t.length ≤ fuel →
      ∃ ds : List Document, readItems r ds = l ∧ items mode (fuel + 1) c = .ok (ds, c')
  | .members l => ∀ (fuel : Nat) (c c' : Cursor), Passes c t c' → t.length ≤ fuel →
      starts c 0x22 = true ∧ ∃ ds : List (Text × Document), ds ≠ [] ∧ readMembers r ds = l ∧
        members mode (fuel + 1) (c.advance 1) = .ok (ds, c')

/-- What starts with none of the opening units is a constant or a number. -/
theorem value_constant {k : Constant} (h : Passes c k.word c') :
    value mode (fuel + 1) c = .ok (some (.constant k, c')) := by
  have hfound : constant? c.rest = some k := by rw [h.1, constant?_append]
  have hstarts : ∀ v ∈ [(0x7B : CodePoint), 0x5B, 0x22], starts c v = false := by
    unfold starts
    rw [h.1]
    cases k <;> simp [Constant.word, Text.ofString, CodePoint.ofChar]
  rw [value]
  simp [hstarts, hfound, ← h.eq_advance]

theorem value_integer (hn : Lexeme.Integer n) (rest : Text) :
    value mode (fuel + 1) ⟨pos, n ++ rest⟩ =
      .ok ((number? (n ++ rest)).map fun p => (p.1, advance ⟨pos, n ++ rest⟩ p.2)) := by
  have hstarts : ∀ v ∈ [(0x7B : CodePoint), 0x5B, 0x22], starts ⟨pos, n ++ rest⟩ v = false := by
    obtain ⟨u, after, rfl, hu | ⟨rfl, -⟩⟩ := integer_head hn
    · intro v hv
      have hne : u ≠ v := by
        rintro rfl
        revert hu
        simp only [mem_cons, not_mem_nil, or_false] at hv
        rcases hv with rfl | rfl | rfl <;> decide
      simp [starts, hne]
    · simp [starts]
  rw [value]
  simp only [hstarts, mem_cons, true_or, or_true, Bool.false_eq_true, if_false,
    constant?_integer hn]
  cases number? (n ++ rest) with
  | none => rfl
  | some found => rfl

theorem value_number {f e : Text}
    (hn : Lexeme.Integer n) (hf : Lexeme.Fraction f) (he : Lexeme.Exponent e)
    (h : Passes c (n ++ (f ++ e)) c') (hrest : Delimits c'.rest) :
    value mode (fuel + 1) c = .ok (some (numberDocument n f e, c')) := by
  have hassoc : c.rest = n ++ (f ++ (e ++ c'.rest)) := by simp [h.1]
  obtain ⟨pos, rest⟩ := c
  obtain rfl : rest = _ := hassoc
  rw [value_integer hn, number?_append hn hf he hrest, Option.map_some, ← h.eq_advance]

theorem delimits_blanks (h : Passes c w c') (hw : Blanks w) (hc : starts c' u)
    (hu : u = 0x2C ∨ u = 0x5D ∨ u = 0x7D) : Delimits c.rest := by
  intro v hv
  rw [h.1] at hv
  cases w with
  | nil =>
    obtain rfl : u = v := Option.some.inj ((head?_of_starts hc).symm.trans hv)
    exact .inr hu
  | cons b w =>
    obtain rfl : b = v := by simpa using hv
    exact .inl (hw b mem_cons_self)

variable {r : Reading α}

theorem Passes.skipBlanks_derives {c'' : Cursor} {p : Phrase α} (h : Passes c w c') (hw : Blanks w)
    (hp : Derives mode r t p) (h' : Passes c' t c'') : c.skipBlanks = c' := by
  obtain ⟨u, rest, rfl, hu, -⟩ := hp.opens
  exact h.skipBlanks_starts hw (passes_cons_iff.1 h').1 hu

/-- **The parser takes every phrase of the grammar.** -/
theorem parses_of_derives {p : Phrase α} (h : Derives mode r t p) : Parses mode r t p := by
  induction h with
  | constant k =>
    intro fuel c c' hpasses _ _
    exact ⟨.constant k, by simp [Document.read], value_constant hpasses⟩
  | @integer n hn =>
    intro fuel c c' hpasses _ hrest
    have hpasses : Passes c (n ++ ([] ++ [])) c' := by simpa using hpasses
    have hdelimits := hrest ⟨n, [], hn, (append_nil n).symm⟩
    exact ⟨.integer n, by simp [Document.read], value_number hn .missing .missing hpasses hdelimits⟩
  | @real n f e hn hf he hreal =>
    intro fuel c c' hpasses _ hrest
    refine ⟨.real (n ++ (f ++ e)), by simp [Document.read], ?_⟩
    rw [value_number hn hf he hpasses (hrest ⟨n, f ++ e, hn, rfl⟩), numberDocument, if_neg hreal]
  | @string body t h =>
    intro fuel c c' hpasses _ _
    obtain ⟨hquote, hpasses⟩ := passes_cons_iff.1 hpasses
    refine ⟨.string t, by simp [Document.read], ?_⟩
    rw [value]
    simp [starts, head?_of_starts hquote, hpasses.scanString h, bind, Except.bind, pure, Except.pure]
  | emptyArray hw =>
    intro fuel c c' hpasses _ _
    simp only [passes_cons_iff, passes_append_iff, passes_nil_iff] at hpasses
    obtain ⟨hopen, c₁, hskip, hclose, rfl⟩ := hpasses
    refine ⟨.array [], by simp [Document.read, Document.readItems], ?_⟩
    rw [value]
    simp [starts, head?_of_starts hopen, hskip.skipBlanks_starts hw hclose (by decide),
      head?_of_starts hclose, pure, Except.pure]
  | array hw hbody ih =>
    intro fuel c c' hpasses hfuel _
    simp only [passes_cons_iff, passes_append_iff, length_cons, length_append] at hpasses hfuel
    obtain ⟨hopen, c₁, hskip, hpasses⟩ := hpasses
    obtain ⟨fuel, rfl⟩ : ∃ n, fuel = n + 1 := Nat.exists_eq_add_one.2 (by omega)
    obtain ⟨ds, hread, hitems⟩ := ih fuel c₁ c' hpasses (by omega)
    obtain ⟨u, rest, rfl, hu⟩ := hbody.opens
    have hhead := (passes_cons_iff.1 hpasses).1
    refine ⟨.array ds, by simp [Document.read, hread], ?_⟩
    rw [value]
    simp [starts, head?_of_starts hopen, hskip.skipBlanks_starts hw hhead hu.1, head?_of_starts hhead,
      hu.2.1, hitems, bind, Except.bind, pure, Except.pure]
  | emptyObject hw =>
    intro fuel c c' hpasses _ _
    simp only [passes_cons_iff, passes_append_iff, passes_nil_iff] at hpasses
    obtain ⟨hopen, c₁, hskip, hclose, rfl⟩ := hpasses
    refine ⟨.object [], by simp [Document.read], ?_⟩
    rw [value]
    simp [starts, head?_of_starts hopen, hskip.skipBlanks_starts hw hclose (by decide),
      head?_of_starts hclose, pure, Except.pure]
  | object hw hbody ih =>
    intro fuel c c' hpasses hfuel _
    simp only [passes_cons_iff, passes_append_iff, length_cons, length_append] at hpasses hfuel
    obtain ⟨hopen, c₁, hskip, hpasses⟩ := hpasses
    obtain ⟨fuel, rfl⟩ : ∃ n, fuel = n + 1 := Nat.exists_eq_add_one.2 (by omega)
    obtain ⟨hquote, ds, hne, hread, hmembers⟩ := ih fuel c₁ c' hpasses (by omega)
    refine ⟨.object ds, by simp [Document.read, hread, hne], ?_⟩
    rw [value]
    simp [starts, head?_of_starts hopen, hskip.skipBlanks_starts hw hquote (by decide),
      head?_of_starts hquote, hmembers, bind, Except.bind, pure, Except.pure]
  | lastItem hitem hw ih =>
    intro fuel c c' hpasses hfuel
    simp only [passes_cons_iff, passes_append_iff, passes_nil_iff, length_append, length_cons]
      at hpasses hfuel
    obtain ⟨c₁, hpasses, c₂, hskip, hclose, rfl⟩ := hpasses
    obtain ⟨fuel, rfl⟩ : ∃ n, fuel = n + 1 := Nat.exists_eq_add_one.2 (by omega)
    obtain ⟨d, hread, hvalue⟩ :=
      ih fuel c c₁ hpasses (by omega) fun _ => delimits_blanks hskip hw hclose (by simp)
    refine ⟨[d], by simp [readItems, hread], ?_⟩
    rw [items]
    simp [hvalue, hskip.skipBlanks_starts hw hclose (by decide), hclose, bind, Except.bind, pure,
      Except.pure]
  | item hitem hw hw' hbody ihitem ihbody =>
    intro fuel c c' hpasses hfuel
    simp only [passes_cons_iff, passes_append_iff, length_append, length_cons] at hpasses hfuel
    obtain ⟨c₁, hpasses, c₂, hskip, hcomma, c₃, hskip', hpasses'⟩ := hpasses
    obtain ⟨fuel, rfl⟩ : ∃ n, fuel = n + 1 := Nat.exists_eq_add_one.2 (by omega)
    obtain ⟨d, hread, hvalue⟩ :=
      ihitem fuel c c₁ hpasses (by omega) fun _ => delimits_blanks hskip hw hcomma (by simp)
    obtain ⟨ds, hreads, hitems⟩ := ihbody fuel c₃ c' hpasses' (by omega)
    refine ⟨d :: ds, by simp [readItems, hread, hreads], ?_⟩
    rw [items]
    simp [hvalue, hskip.skipBlanks_starts hw hcomma (by decide), starts, head?_of_starts hcomma,
      hskip'.skipBlanks_derives hw' hbody hpasses', hitems, bind, Except.bind, pure, Except.pure]
  | @lastMember _ key _ _ _ _ _ hkey hw hw₁ hitem hw₂ ih =>
    intro fuel c c' hpasses hfuel
    simp only [passes_cons_iff, passes_append_iff, passes_nil_iff, length_append, length_cons]
      at hpasses hfuel
    obtain ⟨hquote, c₁, hscan, c₂, hskip, hcolon, c₃, hskip₁, c₄, hpasses, c₅, hskip₂, hclose, rfl⟩ :=
      hpasses
    obtain ⟨fuel, rfl⟩ : ∃ n, fuel = n + 1 := Nat.exists_eq_add_one.2 (by omega)
    obtain ⟨d, hread, hvalue⟩ :=
      ih fuel c₃ c₄ hpasses (by omega) fun _ => delimits_blanks hskip₂ hw₂ hclose (by simp)
    refine ⟨hquote, [(key, d)], by simp, by simp [readMembers, hread], ?_⟩
    rw [members, hscan.scanString hkey]
    simp [hskip.skipBlanks_starts hw hcolon (by decide), hcolon,
      hskip₁.skipBlanks_derives hw₁ hitem hpasses, hvalue,
      hskip₂.skipBlanks_starts hw₂ hclose (by decide), hclose, bind, Except.bind, pure, Except.pure]
  | @member _ key _ _ _ _ _ _ _ _ hkey hw hw₁ hitem hw₂ hw₃ hbody ihitem ihbody =>
    intro fuel c c' hpasses hfuel
    simp only [passes_cons_iff, passes_append_iff, length_append, length_cons] at hpasses hfuel
    obtain ⟨hquote, c₁, hscan, c₂, hskip, hcolon, c₃, hskip₁, c₄, hpasses, c₅, hskip₂, hcomma, c₆,
      hskip₃, hpasses'⟩ := hpasses
    obtain ⟨fuel, rfl⟩ : ∃ n, fuel = n + 1 := Nat.exists_eq_add_one.2 (by omega)
    obtain ⟨d, hread, hvalue⟩ :=
      ihitem fuel c₃ c₄ hpasses (by omega) fun _ => delimits_blanks hskip₂ hw₂ hcomma (by simp)
    obtain ⟨hquote', ds, hne, hreads, hmembers⟩ := ihbody fuel c₆ c' hpasses' (by omega)
    refine ⟨hquote, (key, d) :: ds, by simp, by simp [readMembers, hread, hreads], ?_⟩
    rw [members, hscan.scanString hkey]
    simp [hskip.skipBlanks_starts hw hcolon (by decide), head?_of_starts hcolon,
      hskip₁.skipBlanks_derives hw₁ hitem hpasses, hvalue,
      hskip₂.skipBlanks_starts hw₂ hcomma (by decide), starts, head?_of_starts hcomma,
      hskip₃.skipBlanks_starts hw₃ hquote' (by decide), head?_of_starts hquote', hmembers, bind,
      Except.bind, pure, Except.pure]

/-- What the parser has gone over, when it succeeds, is a phrase with the meaning of what it gives.
Members are parsed from after the first quote on. -/
structure Sound (mode : Mode) {α : Type} (r : Reading α) (fuel : Nat) : Prop where
  value : ∀ {c c' : Cursor} {d : Document}, value mode fuel c = .ok (some (d, c')) →
    ∃ t, Passes c t c' ∧ Derives mode r t (.document (d.read r))
  items : ∀ {c c' : Cursor} {ds : List Document}, items mode fuel c = .ok (ds, c') →
    ∃ t, Passes c t c' ∧ Derives mode r t (.items (readItems r ds))
  members : ∀ {c c' : Cursor} {ds : List (Text × Document)},
    members mode fuel c = .ok (ds, c') → ds ≠ [] ∧
      ∃ t, Passes c t c' ∧ Derives mode r (0x22 :: t) (.members (readMembers r ds))

theorem Sound.value_succ (ih : Sound mode r fuel)
    (h : Parser.value mode (fuel + 1) c = .ok (some (d, c'))) :
    ∃ t, Passes c t c' ∧ Derives mode r t (.document (d.read r)) := by
  rw [Parser.value] at h
  dsimp only at h
  split at h
  · rename_i hbrace
    obtain ⟨w, hw, hskip⟩ := passes_skipBlanks (c.advance 1)
    have hopen := (passes_starts hbrace).trans hskip
    split at h
    · rename_i hclose
      obtain ⟨rfl, rfl⟩ : object [] = d ∧ _ = c' := by simpa using pure_ok_iff.1 h
      refine ⟨_, hopen.trans (passes_starts hclose), ?_⟩
      have hempty : Derives mode r _ _ := .emptyObject hw
      simpa [Document.read] using hempty
    · split at h
      · rename_i hquote
        obtain ⟨⟨ds, c''⟩, hds, h⟩ := bind_ok_iff.1 h
        obtain ⟨rfl, rfl⟩ : object ds = d ∧ c'' = c' := by simpa using pure_ok_iff.1 h
        obtain ⟨hne, body, hpasses, hbody⟩ := ih.members hds
        refine ⟨_, (hopen.trans (passes_starts hquote)).trans hpasses, ?_⟩
        simpa [Document.read, hne] using Derives.object hw hbody
      · cases h
  split at h
  · rename_i hbracket
    obtain ⟨w, hw, hskip⟩ := passes_skipBlanks (c.advance 1)
    have hopen := (passes_starts hbracket).trans hskip
    split at h
    · rename_i hclose
      obtain ⟨rfl, rfl⟩ : array [] = d ∧ _ = c' := by simpa using pure_ok_iff.1 h
      refine ⟨_, hopen.trans (passes_starts hclose), ?_⟩
      have hempty : Derives mode r _ _ := .emptyArray hw
      simpa [Document.read, Document.readItems] using hempty
    · obtain ⟨⟨ds, c''⟩, hds, h⟩ := bind_ok_iff.1 h
      obtain ⟨rfl, rfl⟩ : array ds = d ∧ c'' = c' := by simpa using pure_ok_iff.1 h
      obtain ⟨body, hpasses, hbody⟩ := ih.items hds
      refine ⟨_, hopen.trans hpasses, ?_⟩
      simpa [Document.read] using Derives.array hw hbody
  split at h
  · rename_i hquote
    obtain ⟨⟨t, c''⟩, hscan, h⟩ := bind_ok_iff.1 h
    obtain ⟨rfl, rfl⟩ : string t = d ∧ c'' = c' := by simpa using pure_ok_iff.1 h
    obtain ⟨body, hpasses, htoken⟩ := passes_scanString hscan
    refine ⟨_, (passes_starts hquote).trans hpasses, ?_⟩
    simpa [Document.read] using Derives.string htoken
  split at h
  · rename_i k hk
    obtain ⟨rfl, rfl⟩ : constant k = d ∧ _ = c' := by simpa using h
    obtain ⟨rest, hrest⟩ := constant?_split hk
    refine ⟨k.word, ⟨by simp [advance, hrest], rfl⟩, ?_⟩
    simpa [Document.read] using Derives.constant k
  · split at h
    · rename_i d' n hnumber
      obtain ⟨rfl, rfl⟩ : d' = d ∧ _ = c' := by simpa using h
      obtain ⟨n, f, e, rest, hrest, rfl, hn, hf, he, rfl⟩ := number?_split hnumber
      refine ⟨n ++ (f ++ e), ⟨by simp [advance, hrest], rfl⟩, ?_⟩
      unfold numberDocument
      by_cases hempty : f ++ e = []
      · simpa [hempty, Document.read] using Derives.integer hn
      · simpa [hempty, Document.read] using Derives.real hn hf he hempty
    · simp at h

theorem Sound.items_succ (ih : Sound mode r fuel)
    (h : Parser.items mode (fuel + 1) c = .ok (ds, c')) :
    ∃ t, Passes c t c' ∧ Derives mode r t (.items (readItems r ds)) := by
  rw [Parser.items] at h
  obtain ⟨found, hfound, h⟩ := bind_ok_iff.1 h
  cases found with
  | none => cases h
  | some found =>
    obtain ⟨d, c₁⟩ := found
    obtain ⟨t, hpasses, hitem⟩ := ih.value hfound
    obtain ⟨w, hw, hskip⟩ := passes_skipBlanks c₁
    have hbefore := hpasses.trans hskip
    dsimp only at h
    split at h
    · rename_i hclose
      obtain ⟨rfl, rfl⟩ : [d] = ds ∧ _ = c' := by simpa using pure_ok_iff.1 h
      refine ⟨_, hbefore.trans (passes_starts hclose), ?_⟩
      simpa [readItems] using Derives.lastItem hitem hw
    · split at h
      · cases h
      · rename_i hcomma
        obtain ⟨⟨rest, c₂⟩, hrest, h⟩ := bind_ok_iff.1 h
        obtain ⟨rfl, rfl⟩ : d :: rest = ds ∧ c₂ = c' := by simpa using pure_ok_iff.1 h
        obtain ⟨body, hpasses', hbody⟩ := ih.items hrest
        obtain ⟨w', hw', hskip'⟩ := passes_skipBlanks (c₁.skipBlanks.advance 1)
        refine ⟨_, ((hbefore.trans (passes_starts (by simpa using hcomma))).trans hskip').trans
          hpasses', ?_⟩
        simpa [readItems] using Derives.item hitem hw hw' hbody

theorem Sound.members_succ (ih : Sound mode r fuel) {ds : List (Text × Document)}
    (h : Parser.members mode (fuel + 1) c = .ok (ds, c')) :
    ds ≠ [] ∧ ∃ t, Passes c t c' ∧ Derives mode r (0x22 :: t) (.members (readMembers r ds)) := by
  rw [Parser.members] at h
  obtain ⟨⟨key, c₁⟩, hkey, h⟩ := bind_ok_iff.1 h
  obtain ⟨k, hpassesKey, htoken⟩ := passes_scanString hkey
  obtain ⟨w, hw, hskip⟩ := passes_skipBlanks c₁
  dsimp only at h
  split at h
  · cases h
  · rename_i hcolon
    obtain ⟨w₁, hw₁, hskip₁⟩ := passes_skipBlanks (c₁.skipBlanks.advance 1)
    obtain ⟨found, hfound, h⟩ := bind_ok_iff.1 h
    cases found with
    | none => cases h
    | some found =>
      obtain ⟨d, c₂⟩ := found
      obtain ⟨t, hpasses, hitem⟩ := ih.value hfound
      obtain ⟨w₂, hw₂, hskip₂⟩ := passes_skipBlanks c₂
      have hbefore := ((((hpassesKey.trans hskip).trans (passes_starts
        (by simpa using hcolon))).trans hskip₁).trans hpasses).trans hskip₂
      dsimp only at h
      split at h
      · rename_i hclose
        obtain ⟨rfl, rfl⟩ : [(key, d)] = ds ∧ _ = c' := by simpa using pure_ok_iff.1 h
        refine ⟨by simp, _, hbefore.trans (passes_starts hclose), ?_⟩
        simpa [readMembers] using Derives.lastMember htoken hw hw₁ hitem hw₂
      · split at h
        · cases h
        · rename_i hcomma
          split at h
          · cases h
          · rename_i hquote
            obtain ⟨⟨rest, c₃⟩, hrest, h⟩ := bind_ok_iff.1 h
            obtain ⟨rfl, rfl⟩ : (key, d) :: rest = ds ∧ c₃ = c' := by
              simpa using pure_ok_iff.1 h
            obtain ⟨-, body, hpasses', hbody⟩ := ih.members hrest
            obtain ⟨w₃, hw₃, hskip₃⟩ := passes_skipBlanks (c₂.skipBlanks.advance 1)
            refine ⟨by simp, _, (((hbefore.trans (passes_starts (by simpa using hcomma))).trans
              hskip₃).trans (passes_starts (by simpa using hquote))).trans hpasses', ?_⟩
            simpa [readMembers] using Derives.member htoken hw hw₁ hitem hw₂ hw₃ hbody

/-- **The parser takes nothing but phrases of the grammar.** -/
theorem sound (mode : Mode) (r : Reading α) (fuel : Nat) : Sound mode r fuel := by
  induction fuel with
  | zero =>
    constructor
    · intro c c' d h
      simp [value] at h
    · intro c c' ds h
      simp [items] at h
    · intro c c' ds h
      simp [members] at h
  | succ fuel ih => exact ⟨ih.value_succ, ih.items_succ, ih.members_succ⟩

end Parser

theorem cursorAt_append (before rest : Text) :
    cursorAt (before ++ rest) (before.length : Nat) = ⟨before.length, rest⟩ := by
  simp [cursorAt]

theorem cursorAt_zero (s : Text) : cursorAt s 0 = ⟨0, s⟩ := by
  simp [cursorAt]

theorem cursorAt_of_le {n : Nat} (hn : n ≤ s.length) : cursorAt s n = ⟨n, s.drop n⟩ := by
  unfold cursorAt
  rw [Int.toNat_natCast, Nat.min_eq_left hn]

theorem parseAt_eq_ok_iff {stop : Nat} :
    parseAt mode s index = .ok (d, stop) ↔
      ∃ c, Parser.valueAt mode (cursorAt s index) = .ok (some (d, c)) ∧ c.pos = stop := by
  unfold parseAt
  rw [bind_ok_iff]
  constructor
  · rintro ⟨found, hfound, h⟩
    cases found with
    | none => cases h
    | some found =>
      obtain ⟨rfl, rfl⟩ := Prod.mk.inj (pure_ok_iff.1 h)
      exact ⟨found.2, hfound, rfl⟩
  · rintro ⟨c, hfound, rfl⟩
    exact ⟨_, hfound, rfl⟩

theorem parseAt_eq_error_iff {e : ParseError} :
    parseAt mode s index = .error e ↔
      Parser.valueAt mode (cursorAt s index) = .error e ∨
        Parser.valueAt mode (cursorAt s index) = .ok none ∧ e = .noDocument := by
  unfold parseAt
  cases Parser.valueAt mode (cursorAt s index) with
  | error e' => simp [bind, Except.bind]
  | ok answer =>
    cases answer with
    | none => simp [bind, Except.bind, eq_comm]
    | some found => simp [bind, Except.bind, pure, Except.pure]

theorem cursorAt_of_passes {t : Text} {c : Cursor} (h : Parser.Passes ⟨0, s⟩ t c) :
    cursorAt s c.pos = c := by
  obtain ⟨pos, rest⟩ := c
  obtain ⟨hrest, hposition⟩ := h
  obtain rfl : s = t ++ rest := hrest
  obtain rfl : pos = t.length := by simpa using hposition
  exact cursorAt_append t rest

/-- After the document of a text there is only white space, or the text is refused. -/
theorem parseSource_of_parseAt {c : Cursor}
    (hparse : parseAt mode s (skipBlanks ⟨0, s⟩).pos = .ok (d, c.pos))
    (hcursor : cursorAt s c.pos = c) :
    parseSource mode s =
      if c.skipBlanks.pos = s.length then .ok d
      else .error (.extraData c.skipBlanks.pos s.length) := by
  unfold parseSource
  rw [cursorAt_zero]
  dsimp only
  rw [hparse, ok_bind]
  dsimp only
  rw [hcursor]
  rfl

theorem spells_of_parseSource (r : Reading α)
    (h : parseSource mode s = .ok d) : Spells mode r s (d.read r) := by
  have hsource := h
  unfold parseSource at h
  rw [cursorAt_zero] at h
  obtain ⟨⟨d', stop⟩, hparse, -⟩ := bind_ok_iff.1 h
  obtain ⟨c, hfound, rfl⟩ := parseAt_eq_ok_iff.1 hparse
  obtain ⟨w, hw, hstart⟩ := Parser.passes_skipBlanks ⟨0, s⟩
  rw [cursorAt_of_passes hstart] at hfound
  obtain ⟨t, hpasses, hderives⟩ := (Parser.sound mode r _).value hfound
  obtain ⟨w', hw', hend⟩ := Parser.passes_skipBlanks c
  rw [parseSource_of_parseAt hparse (cursorAt_of_passes (hstart.trans hpasses))] at hsource
  split at hsource
  · rename_i hlen
    obtain rfl := Except.ok.inj hsource
    obtain ⟨hs, hposition⟩ := hstart.trans (hpasses.trans hend)
    have hempty : c.skipBlanks.rest = [] := by
      have hsum := congrArg length hs
      rw [length_append] at hsum
      refine length_eq_zero_iff.1 ?_
      dsimp only at hsum hposition
      omega
    rw [hempty, append_nil] at hs
    exact ⟨w, t, w', hs, hw, hderives, hw'⟩
  · cases hsource

variable {r : Reading α} {a : α}

theorem parseSource_of_spells
    (h : Spells mode r s a) : ∃ d, parseSource mode s = .ok d ∧ d.read r = a := by
  obtain ⟨w, t, w', rfl, hw, hderives, hw'⟩ := h
  have hwhole : Parser.Passes ⟨0, w ++ (t ++ w')⟩ (w ++ (t ++ w')) ⟨(w ++ (t ++ w')).length, []⟩ :=
    ⟨by simp, by simp⟩
  obtain ⟨c, hstart, c', hpasses, hend⟩ : ∃ c, _ ∧ ∃ c', _ ∧ _ := by
    simpa only [Parser.passes_append_iff] using hwhole
  have hskip : skipBlanks ⟨0, w ++ (t ++ w')⟩ = c := hstart.skipBlanks_derives hw hderives hpasses
  have hstop : c'.skipBlanks = ⟨(w ++ (t ++ w')).length, []⟩ := hend.skipBlanks hw' (by simp)
  have hrest : Delimits c'.rest := by
    intro u hu
    rw [hend.1, append_nil] at hu
    exact .inl (hw' u (mem_of_mem_head? hu))
  have hfuel : t.length ≤ 2 * c.rest.length := by
    rw [hpasses.1, length_append]
    omega
  obtain ⟨d, hread, hvalue⟩ := Parser.parses_of_derives hderives _ c c' hpasses hfuel fun _ => hrest
  have hparse : parseAt mode (w ++ (t ++ w')) c.pos = .ok (d, c'.pos) :=
    parseAt_eq_ok_iff.2 ⟨c', by rw [cursorAt_of_passes hstart]; exact hvalue, rfl⟩
  refine ⟨d, ?_, hread⟩
  rw [parseSource_of_parseAt (hskip ▸ hparse) (cursorAt_of_passes (hstart.trans hpasses)), hstop,
    if_pos rfl]

/-- **A text is parsed exactly if it spells a document**, and it is parsed to that document. -/
theorem parseSource_iff : (∃ d, parseSource mode s = .ok d ∧ d.read r = a) ↔ Spells mode r s a := by
  constructor
  · rintro ⟨d, hparse, rfl⟩
    exact spells_of_parseSource r hparse
  · exact parseSource_of_spells

theorem decode_eq_error_iff {s : Text} {e : ParseError} :
    decode s = .error e ↔ parseSource {} s = .error e := by
  unfold decode
  cases parseSource {} s with
  | error e' => simp [Except.map]
  | ok d => simp [Except.map]

/-- The parser accepts what the grammar spells. -/
theorem decode_eq_ok_iff {s : Text} {v : Value} :
    decode s = .ok v ↔ Spells {} Value.reading s v := by
  rw [← parseSource_iff]
  unfold decode value
  cases parseSource {} s with
  | error e => simp [Except.map]
  | ok d => simp [Except.map]

end AddonBuilder.Json
