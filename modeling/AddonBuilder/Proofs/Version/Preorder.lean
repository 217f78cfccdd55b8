import AddonBuilder.Proofs.Files.Names
import AddonBuilder.Proofs.Version.Order

/-!
# Versions are totally preordered

Two versions are compared with the shorter one filled up, so three versions are compared in pairs
with three different fillings.
-/

namespace AddonBuilder.Version

open List Part

/-- A version all of whose parts can be read. -/
def Readable (version : String) : Prop := ∀ s ∈ parts version, (parse? s).isSome = true

instance (version : String) : Decidable (Readable version) :=
  inferInstanceAs (Decidable (∀ s ∈ parts version, (parse? s).isSome = true))

/-- A version with any number of `.0` and `.` behind it. -/
inductive Lengthened (version : String) : String → Prop
  | same : Lengthened version version
  | zero {longer : String} (h : Lengthened version longer) : Lengthened version (longer ++ ".0")
  | empty {longer : String} (h : Lengthened version longer) : Lengthened version (longer ++ ".")

def ranks (n : Nat) (ps : List Part) : List Rank := (fill {} n ps).map rank

/-! ### One order for all fillings -/

theorem order_swap {α : Type} [LinearOrder α] (a b : α) : order b a = (order a b).swap :=
  (cmp_swap a b).symm

theorem order_ne_gt_iff {α : Type} [LinearOrder α] {a b : α} : order a b ≠ .gt ↔ a ≤ b := by
  rw [order, ne_eq, cmp_eq_gt_iff, not_lt]

theorem order_eq_eq_iff {α : Type} [LinearOrder α] {a b : α} : order a b = .eq ↔ a = b :=
  cmp_eq_eq_iff a b

/-- What two sequences of one length end with alike does not matter. -/
theorem order_append {α : Type} [LinearOrder α] {as bs : List α} (h : as.length = bs.length)
    (more : List α) : order (as ++ more) (bs ++ more) = order as bs := by
  induction as generalizing bs with
  | nil =>
    obtain rfl := length_eq_zero_iff.1 h.symm
    exact (cmp_self_eq_eq more).trans (cmp_self_eq_eq []).symm
  | cons a as ih =>
    cases bs with
    | nil => cases h
    | cons b bs =>
      rw [cons_append, cons_append, order_cons, order_cons, ih (Nat.succ.inj h)]

theorem length_fill {α : Type} (missing : α) (n : Nat) (l : List α) :
    (fill missing n l).length = max n l.length := by
  rw [fill, length_append, length_replicate]
  omega

/-- Filling up further puts missing elements behind what is there. -/
theorem fill_of_le {α : Type} (missing : α) {m n : Nat} (h : m ≤ n) (l : List α) (hl : l.length ≤ n) :
    fill missing n l = fill missing m l ++ replicate (n - max m l.length) missing := by
  have hcount : n - l.length = (m - l.length) + (n - max m l.length) := by omega
  rw [fill, fill, hcount, append_assoc, replicate_append_replicate]

/-- **The filling does not matter** as long as it is the same for both. -/
theorem order_ranks {ps qs : List Part} {n : Nat} (hp : ps.length ≤ n) (hq : qs.length ≤ n) :
    order (ranks qs.length ps) (ranks ps.length qs) = order (ranks n ps) (ranks n qs) := by
  have hmax : max ps.length qs.length = max qs.length ps.length := max_comm _ _
  have hlen : (ranks qs.length ps).length = (ranks ps.length qs).length := by
    rw [ranks, ranks, length_map, length_map, length_fill, length_fill, hmax]
  have hps : ranks n ps = ranks qs.length ps ++
      replicate (n - max qs.length ps.length) (rank {}) := by
    rw [ranks, ranks, fill_of_le {} hq ps hp, map_append, map_replicate]
  have hqs : ranks n qs = ranks ps.length qs ++
      replicate (n - max qs.length ps.length) (rank {}) := by
    rw [ranks, ranks, fill_of_le {} hp qs hq, map_append, map_replicate, hmax]
  rw [hps, hqs, order_append hlen]

theorem Readable.exists_parts {version : String} (h : Readable version) :
    ∃ ps, Forall₂ (fun s p => parse? s = some p) (parts version) ps := by
  obtain ⟨ws, hws⟩ := exists_reads h
  exact ⟨_, hws.parse?⟩

/-- **Versions are compared by sequences of ranks of one length**, any that is large enough. -/
theorem compare?_eq_order {a b : String} {ps qs : List Part} {n : Nat}
    (ha : Forall₂ (fun s p => parse? s = some p) (parts a) ps)
    (hb : Forall₂ (fun s p => parse? s = some p) (parts b) qs)
    (hp : ps.length ≤ n) (hq : qs.length ≤ n) :
    compare? a b = some (order (ranks n ps) (ranks n qs)) := by
  rw [compare?, compareParts?_eq ha hb, ← order_ranks hp hq]
  rfl

/-! ### Turned around and lengthened -/

theorem compare_swap (p q : Part) : q.compare p = (p.compare q).swap := by
  rw [compare_eq_order, compare_eq_order, order_swap]

theorem step_swap (s t : String) (rest : Option Ordering) :
    compareParts?.step t s (rest.map Ordering.swap) =
      (compareParts?.step s t rest).map Ordering.swap := by
  unfold compareParts?.step
  cases hs : parse? s with
  | none => cases parse? t <;> rfl
  | some p =>
    cases ht : parse? t with
    | none => rfl
    | some q =>
      simp only [Option.bind_eq_bind, Option.bind_some]
      rw [compare_swap p q]
      cases p.compare q <;> rfl

/-- Comparing the other way swaps the result. -/
theorem compareParts?_swap (as bs : List String) :
    compareParts? bs as = (compareParts? as bs).map Ordering.swap := by
  fun_induction compareParts? as bs with
  | case1 => rw [compareParts?, Option.map_some, Ordering.swap_eq]
  | case2 a as ih => rw [compareParts?, ih, step_swap]
  | case3 b bs ih => rw [compareParts?, ih, step_swap]
  | case4 a as b bs ih => rw [compareParts?, ih, step_swap]

/-- A part at the end that is read like a missing one is of no account, even where other parts cannot
be read. -/
theorem compareParts?_append_missing {last : String} (hlast : parse? last = some {})
    (as bs : List String) : compareParts? (as ++ [last]) bs = compareParts? as bs := by
  have hstep : ∀ t rest, compareParts?.step last t rest = compareParts?.step "" t rest := by
    intro t rest
    have hmissing : parse? "" = some {} := rfl
    rw [compareParts?.step, compareParts?.step, hlast, hmissing]
  fun_induction compareParts? as bs with
  | case1 =>
    rw [nil_append, compareParts?, compareParts?, hstep]
    rfl
  | case2 a as ih => rw [cons_append, compareParts?, ih]
  | case3 b bs ih => rw [nil_append, compareParts?, hstep]
  | case4 a as b bs ih => rw [cons_append, compareParts?, ih]

theorem parts_append_dot (a b : String) : parts (a ++ "." ++ b) = parts a ++ parts b := by
  have hparts : ∀ s : String, parts s = (s.toList.splitOn '.').map String.ofList := by
    intro s
    rw [parts, Text.splitString, Text.pieces_eq_splitOnP, splitOn_eq_splitOnP]
  have htext : (a ++ "." ++ b).toList = a.toList ++ '.' :: b.toList := by simp
  rw [hparts, htext, splitOn_append_cons_self, map_append, ← hparts, ← hparts]

theorem Lengthened.compare?_eq {a a' : String} (h : Lengthened a a') (b : String) :
    compare? a' b = compare? a b := by
  induction h with
  | same => rfl
  | @zero longer _ ih =>
    have hparts : parts (longer ++ ".0") = parts longer ++ ["0"] := by
      have hdot : longer ++ ".0" = longer ++ "." ++ "0" := by rw [String.append_assoc]; rfl
      rw [hdot, parts_append_dot]
      rfl
    have hzero : parse? "0" = some {} := by decide
    rw [compare?, hparts, compareParts?_append_missing hzero]
    exact ih
  | @empty longer _ ih =>
    have hparts : parts (longer ++ ".") = parts longer ++ [""] := by
      rw [← String.append_empty (s := longer ++ "."), parts_append_dot]
      rfl
    have hempty : parse? "" = some {} := rfl
    rw [compare?, hparts, compareParts?_append_missing hempty]
    exact ih

/-- **Versions are totally preordered.**  Versions all of whose parts can be read can be compared;
each is equal to itself, turning a comparison around turns its answer around, the order is
transitive, and equal versions compare alike with a third.  A version with `.0` or `.` behind it
compares like the version itself, with any other. -/
theorem compare?_preorder (a b c : String) (ha : Readable a) (hb : Readable b) (hc : Readable c) :
    (∃ o, compare? a b = some o) ∧ compare? a a = some .eq ∧
    compare? b a = (compare? a b).map Ordering.swap ∧
    (compare? a b ≠ some .gt → compare? b c ≠ some .gt → compare? a c ≠ some .gt) ∧
    (compare? a b = some .eq → compare? a c = compare? b c) ∧
    ∀ a' other, Lengthened a a' →
      compare? a' other = compare? a other ∧ compare? other a' = compare? other a := by
  obtain ⟨ps, hps⟩ := ha.exists_parts
  obtain ⟨qs, hqs⟩ := hb.exists_parts
  obtain ⟨rs, hrs⟩ := hc.exists_parts
  -- One length that does for all three versions.
  obtain ⟨n, hp, hq, hr⟩ : ∃ n, ps.length ≤ n ∧ qs.length ≤ n ∧ rs.length ≤ n :=
    ⟨ps.length + qs.length + rs.length, by omega, by omega, by omega⟩
  have hab := compare?_eq_order hps hqs hp hq
  have hbc := compare?_eq_order hqs hrs hq hr
  have hac := compare?_eq_order hps hrs hp hr
  have haa := compare?_eq_order hps hps hp hp
  refine ⟨⟨_, hab⟩, ?_, compareParts?_swap (parts a) (parts b), ?_, ?_, ?_⟩
  · rw [haa, order_eq_eq_iff.2 rfl]
  · rw [hab, hbc, hac, ne_eq, ne_eq, ne_eq, Option.some_inj, Option.some_inj, Option.some_inj]
    intro h h'
    exact order_ne_gt_iff.2 ((order_ne_gt_iff.1 h).trans (order_ne_gt_iff.1 h'))
  · intro h
    rw [hab, Option.some_inj, order_eq_eq_iff] at h
    rw [hac, hbc, h]
  · intro a' other ha'
    have hleft := ha'.compare?_eq other
    refine ⟨hleft, ?_⟩
    calc compare? other a' = (compare? a' other).map Ordering.swap := compareParts?_swap _ _
      _ = (compare? a other).map Ordering.swap := by rw [hleft]
      _ = compare? other a := (compareParts?_swap _ _).symm

/-- Versions of one, two and three parts, and the first of them with three parts behind it. -/
theorem compare?_preorder_padded :
    Readable "1" ∧ Readable "1.0+" ∧ Readable "1.1pre1.*" ∧ Lengthened "1" "1.0..0" ∧
    compare? "1" "1.0+" = some .lt ∧ compare? "1.0+" "1.1pre1.*" = some .lt ∧
    compare? "1" "1.1pre1.*" ≠ some .gt ∧ compare? "1.0..0" "1.0+" = compare? "1" "1.0+" := by
  have ha : Readable "1" := by decide
  have hb : Readable "1.0+" := by decide
  have hc : Readable "1.1pre1.*" := by decide
  have hlonger : Lengthened "1" "1.0..0" := .zero (.empty (.zero .same))
  have hparts : parts "1" = ["1"] ∧ parts "1.0+" = ["1", "0+"] ∧
      parts "1.1pre1.*" = ["1", "1pre1", "*"] := by decide
  have hab : compare? "1" "1.0+" = some .lt := by
    rw [compare?, hparts.1, hparts.2.1, compareParts?, compareParts?, compareParts?]
    decide
  have hbc : compare? "1.0+" "1.1pre1.*" = some .lt := by
    rw [compare?, hparts.2.1, hparts.2.2, compareParts?, compareParts?, compareParts?, compareParts?]
    decide
  have hlaws := compare?_preorder _ _ _ ha hb hc
  refine ⟨ha, hb, hc, hlonger, hab, hbc, hlaws.2.2.2.1 ?_ ?_, (hlaws.2.2.2.2.2 _ _ hlonger).1⟩
  · simp [hab]
  · simp [hbc]

end AddonBuilder.Version
