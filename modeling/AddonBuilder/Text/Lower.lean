import AddonBuilder.Text.Cased

/-!
# Lower case

The lower-case mapping of all scripts, as runs of code points that move by one distance.
-/

namespace AddonBuilder.Text

open List

/-- Runs in which each capital stands before its small letter: the first and the last capital. -/
def pairedRuns : List (Nat × Nat) := [
  (256, 302), (306, 310), (313, 327), (330, 374), (377, 381), (386, 388), (391, 391), (395, 395),
  (401, 401), (408, 408), (416, 420), (423, 423), (428, 428), (431, 431), (435, 437), (440, 440),
  (444, 444), (453, 453), (456, 456), (459, 475), (478, 494), (498, 500), (504, 542), (546, 562),
  (571, 571), (577, 577), (582, 590), (880, 882), (886, 886), (984, 1006), (1015, 1015),
  (1018, 1018), (1120, 1152), (1162, 1214), (1217, 1229), (1232, 1326), (7680, 7828), (7840, 7934),
  (8579, 8579), (11360, 11360), (11367, 11371), (11378, 11378), (11381, 11381), (11392, 11490),
  (11499, 11501), (11506, 11506), (42560, 42604), (42624, 42650), (42786, 42798), (42802, 42862),
  (42873, 42875), (42878, 42886), (42891, 42891), (42896, 42898), (42902, 42920), (42932, 42946),
  (42951, 42953), (42960, 42960), (42966, 42968), (42997, 42997)]

/-- Runs of other capitals: the first, how many there are, and the distance to the small letter. -/
def lowerRuns : List (Nat × Nat × Int) := [
  (65, 26, 32), (192, 23, 32), (216, 7, 32), (376, 1, -121), (385, 1, 210), (390, 1, 206),
  (393, 2, 205), (398, 1, 79), (399, 1, 202), (400, 1, 203), (403, 1, 205), (404, 1, 207),
  (406, 1, 211), (407, 1, 209), (412, 1, 211), (413, 1, 213), (415, 1, 214), (422, 1, 218),
  (425, 1, 218), (430, 1, 218), (433, 2, 217), (439, 1, 219), (452, 1, 2), (455, 1, 2), (458, 1, 2),
  (497, 1, 2), (502, 1, -97), (503, 1, -56), (544, 1, -130), (570, 1, 10795), (573, 1, -163),
  (574, 1, 10792), (579, 1, -195), (580, 1, 69), (581, 1, 71), (895, 1, 116), (902, 1, 38),
  (904, 3, 37), (908, 1, 64), (910, 2, 63), (913, 17, 32), (931, 9, 32), (975, 1, 8),
  (1012, 1, -60), (1017, 1, -7), (1021, 3, -130), (1024, 16, 80), (1040, 32, 32), (1216, 1, 15),
  (1329, 38, 48), (4256, 38, 7264), (4295, 1, 7264), (4301, 1, 7264), (5024, 80, 38864),
  (5104, 6, 8), (7312, 43, -3008), (7357, 3, -3008), (7838, 1, -7615), (7944, 8, -8), (7960, 6, -8),
  (7976, 8, -8), (7992, 8, -8), (8008, 6, -8), (8025, 1, -8), (8027, 1, -8), (8029, 1, -8),
  (8031, 1, -8), (8040, 8, -8), (8072, 8, -8), (8088, 8, -8), (8104, 8, -8), (8120, 2, -8),
  (8122, 2, -74), (8124, 1, -9), (8136, 4, -86), (8140, 1, -9), (8152, 2, -8), (8154, 2, -100),
  (8168, 2, -8), (8170, 2, -112), (8172, 1, -7), (8184, 2, -128), (8186, 2, -126), (8188, 1, -9),
  (8486, 1, -7517), (8490, 1, -8383), (8491, 1, -8262), (8498, 1, 28), (8544, 16, 16),
  (9398, 26, 26), (11264, 48, 48), (11362, 1, -10743), (11363, 1, -3814), (11364, 1, -10727),
  (11373, 1, -10780), (11374, 1, -10749), (11375, 1, -10783), (11376, 1, -10782),
  (11390, 2, -10815), (42877, 1, -35332), (42893, 1, -42280), (42922, 1, -42308),
  (42923, 1, -42319), (42924, 1, -42315), (42925, 1, -42305), (42926, 1, -42308),
  (42928, 1, -42258), (42929, 1, -42282), (42930, 1, -42261), (42931, 1, 928), (42948, 1, -48),
  (42949, 1, -42307), (42950, 1, -35384), (65313, 26, 32), (66560, 40, 40), (66736, 36, 40),
  (66928, 11, 39), (66940, 15, 39), (66956, 7, 39), (66964, 2, 39), (68736, 51, 64),
  (71840, 32, 32), (93760, 32, 32), (125184, 34, 34)]

/-- The small letter of a code point; a code point without one is its own. -/
def lowerPoint (n : Nat) : Nat :=
  if pairedRuns.any fun (lo, hi) => lo ≤ n && n ≤ hi && (n - lo) % 2 == 0 then n + 1
  else match lowerRuns.find? fun (lo, size, _) => lo ≤ n && n < lo + size with
    | some (_, _, distance) => (n + distance : Int).toNat
    | none => n

def lowerChar (c : Char) : List Char :=
  if c.toNat < 0x80 then [c.toLower]
  else if c.toNat = 0x130 then [Char.ofNat 0x69, Char.ofNat 0x307]
  else [Char.ofNat (lowerPoint c.toNat)]

/-- The small sigma between what stands before it, read backwards, and what follows. -/
def lowerSigma (before after : List Char) : Char :=
  if goesOn before && !goesOn after then 'ς' else 'σ'

/-- Characters in lower case; `before` holds, backwards, what stands in front of them. -/
def lowerFrom (before : List Char) : List Char → List Char
  | [] => []
  | c :: after =>
    (if c = 'Σ' then [lowerSigma before after] else lowerChar c) ++ lowerFrom (c :: before) after

def lower (s : String) : String := String.ofList (lowerFrom [] s.toList)

theorem lowerFrom_eq_self {cs : List Char} (h : ∀ c ∈ cs, lowerChar c = [c]) (before : List Char) :
    lowerFrom before cs = cs := by
  induction cs generalizing before with
  | nil => rfl
  | cons c cs ih =>
    have hc := h c mem_cons_self
    have hsigma : c ≠ 'Σ' := by
      rintro rfl
      exact absurd hc (by decide)
    rw [lowerFrom, if_neg hsigma, hc, ih fun d hd => h d (mem_cons_of_mem c hd)]
    rfl

theorem lowerPoint_spec {n : Nat} (hn : 0x80 ≤ n) (hvalid : n.isValidChar) :
    (lowerPoint n).isValidChar ∧ (0x80 ≤ lowerPoint n ∨ lowerPoint n = 0x6B) := by
  -- One check for each run; the run of ASCII does not reach that far.
  have hpairs : (pairedRuns.all fun (_, hi) => decide (hi < 0xD7FF)) := by decide
  have hruns : (lowerRuns.all fun (lo, size, distance) => decide (lo + size ≤ 0x80) ||
      (decide (0x80 ≤ lo + distance ∨ size = 1 ∧ lo + distance = 0x6B) &&
        decide (lo + size + distance ≤ 0xD800 ∨
          0xE000 ≤ lo + distance ∧ lo + size + distance ≤ 0x110000))) := by decide
  unfold lowerPoint
  split
  · rename_i hpair
    obtain ⟨⟨lo, hi⟩, hmem, hin⟩ := any_eq_true.1 hpair
    have hhigh := all_eq_true.1 hpairs _ hmem
    simp only [Bool.and_eq_true, decide_eq_true_eq] at hhigh hin
    unfold Nat.isValidChar
    omega
  split
  · rename_i lo size distance hfind
    have hrun := all_eq_true.1 hruns _ (mem_of_find?_eq_some hfind)
    have hin := find?_some hfind
    simp only [Bool.and_eq_true, Bool.or_eq_true, decide_eq_true_eq] at hrun hin
    unfold Nat.isValidChar
    omega
  · exact ⟨hvalid, .inl hn⟩

theorem mem_lowerChar_iff {c d : Char} (hd : d.toNat < 0x80) (hletter : d.isAlpha = false) :
    d ∈ lowerChar c ↔ d = c := by
  have hne : ∀ {e : Char}, 0x80 ≤ e.toNat ∨ e.isAlpha → d ≠ e := by
    rintro e (he | he) rfl
    · omega
    · rw [hletter] at he
      cases he
  unfold lowerChar
  split
  · rename_i hc
    have hascii : ∀ n < 0x80, (Char.ofNat n).toLower.isAlpha = (Char.ofNat n).isAlpha ∧
        ((Char.ofNat n).isAlpha = false → (Char.ofNat n).toLower = Char.ofNat n) := by decide
    obtain ⟨halpha, hsame⟩ := Char.ofNat_toNat c ▸ hascii c.toNat hc
    rw [mem_singleton]
    cases hc : c.isAlpha with
    | false => rw [hsame hc]
    | true => exact iff_of_false (hne (.inr (halpha.trans hc))) (hne (.inr hc))
  split
  · rename_i hc
    have hletters : ∀ e ∈ [Char.ofNat 0x69, Char.ofNat 0x307], 0x80 ≤ e.toNat ∨ e.isAlpha := by
      simp
    exact iff_of_false (fun h => hne (hletters d h) rfl) (hne (.inl (by omega)))
  · rename_i hc _
    have hchar : c.toNat.isValidChar := c.valid
    obtain ⟨hvalid, hpoint⟩ := lowerPoint_spec (by omega) hchar
    have htoNat : (Char.ofNat (lowerPoint c.toNat)).toNat = lowerPoint c.toNat := by
      rw [Char.ofNat, dif_pos hvalid]
      rfl
    rw [mem_singleton]
    refine iff_of_false (hne ?_) (hne (.inl (by omega)))
    rcases hpoint with hpoint | hpoint
    · exact .inl (by rw [htoNat]; exact hpoint)
    · exact .inr (by rw [hpoint]; rfl)

/-- **Lower case keeps what is no letter.** -/
theorem mem_lowerFrom_iff {d : Char} (hd : d.toNat < 0x80) (hletter : d.isAlpha = false)
    (before cs : List Char) : d ∈ lowerFrom before cs ↔ d ∈ cs := by
  induction cs generalizing before with
  | nil => exact Iff.rfl
  | cons c cs ih =>
    rw [lowerFrom, mem_append, mem_cons, ih]
    refine or_congr_left ?_
    split
    · rename_i hc
      subst hc
      have hsigma : d ≠ 'ς' ∧ d ≠ 'σ' ∧ d ≠ 'Σ' := by
        refine ⟨?_, ?_, ?_⟩ <;>
          · rintro rfl
            exact absurd hd (by decide)
      unfold lowerSigma
      split <;> simp [hsigma]
    · exact mem_lowerChar_iff hd hletter

end AddonBuilder.Text
