import AddonBuilder.Proofs.Linker.Contents
import AddonBuilder.Proofs.Linker.Course
import AddonBuilder.Proofs.Linker.Straight

/-!
# When linking ends

Before linking gives up at a depth it has followed that many different modules, so it ends exactly
if it comes across finitely many modules in all.
-/

namespace AddonBuilder.Linker

open Json Text Path List

variable {d : Nat} {s : Setting} {scope : Scope} {m : Module} {name ending : String} {σ : Manifest}

/-- Linking ends: some depth suffices, and a greater one changes nothing. -/
def Ends (s : Setting) (scope : Scope) : Prop :=
  ∃ d, (link s scope d).1 ≠ .error .endless ∧ ∀ d', d ≤ d' → link s scope d' = link s scope d

/-- The modules that linking comes across from those it starts from, however deep it is let. -/
def visited (s : Setting) (scope : Scope) : Set Module :=
  {m | ∃ d, m ∈ (link s scope d).2.followed}

theorem runs_link (s : Setting) (scope : Scope) (d : Nat) :
    Runs (linkAll s scope (follow s d)) {} (link s scope d).1 (link s scope d).2 := rfl

theorem link_extends (s : Setting) (scope : Scope) {d' : Nat} (hle : d ≤ d') :
    (link s scope d).1 ≠ .error .endless ∧ link s scope d' = link s scope d ∨
      (link s scope d).1 = .error .endless ∧
        ∀ m ∈ (link s scope d).2.followed, m ∈ (link s scope d').2.followed := by
  have hextends := (plan_linkAll s scope {}).extends (obeys_follow s scope d)
    (obeys_follow s scope d') fun m hm => follow_extends hle hm
  rcases hextends _ _ _ _ (runs_link s scope d) (runs_link s scope d') with
    ⟨hends, hresult, hmanifest⟩ | hendless
  · exact .inl ⟨hends, Prod.ext hresult hmanifest⟩
  · exact .inr hendless

theorem ends_of_ne_endless (h : (link s scope d).1 ≠ .error .endless) : Ends s scope := by
  refine ⟨d, h, fun d' hle => ?_⟩
  rcases link_extends s scope hle with ⟨-, hsame⟩ | ⟨hendless, -⟩
  · exact hsame
  · exact absurd hendless h

/-- Before it gives up at a depth, linking has followed that many different modules. -/
theorem le_length_followed (hendless : (link s scope d).1 = .error .endless) :
    d ≤ (link s scope d).2.followed.length ∧ (link s scope d).2.followed.Nodup := by
  have hrun := runs_link s scope d
  rw [hendless] at hrun
  have hlen := (plan_linkAll s scope {}).deep (obeys_follow s scope d)
    (fun m hm => follow_deep d hm) hrun
  exact ⟨by simpa using hlen, (link_steps (runs_link s scope d)).nodup nodup_nil⟩

theorem visited_subset_met (s : Setting) (scope : Scope) :
    visited s scope ⊆ {m | Met s scope m} := by
  rintro m ⟨d, hm⟩
  exact (link_steps (runs_link s scope d)).met (forall_mem_nil _) m hm

theorem finite_visited_of_ends (h : Ends s scope) : (visited s scope).Finite := by
  obtain ⟨d, -, hd⟩ := h
  refine (finite_toSet (link s scope d).2.followed).subset ?_
  rintro m ⟨d', hm⟩
  rcases Nat.le_total d d' with hle | hle
  · rwa [hd d' hle] at hm
  · rcases link_extends s scope hle with ⟨-, hsame⟩ | ⟨-, hsubset⟩
    · rwa [← hsame] at hm
    · exact hsubset m hm

theorem ends_of_finite_visited (h : (visited s scope).Finite) : Ends s scope := by
  -- A depth beyond the number of modules cannot be used up.
  refine ends_of_ne_endless (d := h.toFinset.card + 1) fun hendless => ?_
  obtain ⟨hlen, hnodup⟩ := le_length_followed hendless
  have hsubset : (link s scope (h.toFinset.card + 1)).2.followed.toFinset ⊆ h.toFinset := by
    intro m hm
    exact h.mem_toFinset.2 ⟨_, mem_toFinset.1 hm⟩
  have hcard := Finset.card_le_card hsubset
  rw [toFinset_card_of_nodup hnodup] at hcard
  omega

/-- **When linking ends.**  It ends exactly if it comes across finitely many modules, and it does in
every program in which the relative names are straight. -/
theorem link_ends (s : Setting) (scope : Scope) :
    (Ends s scope ↔ (visited s scope).Finite) ∧ (StraightProgram s scope → Ends s scope) := by
  refine ⟨⟨finite_visited_of_ends, ends_of_finite_visited⟩, fun hstraight => ?_⟩
  exact ends_of_finite_visited ((finite_met hstraight).subset (visited_subset_met s scope))

/-- Two modules that ask for each other are followed once each. -/
theorem link_ends_circle :
    StraightProgram circle {} ∧ Ends circle {} ∧ (visited circle {}).Finite := by
  have hstraight : StraightProgram circle {} :=
    .of_closed circleModules (fun m hm => mem_append_left _ (mem_starts rfl hm))
      closed_circleModules (by decide)
  obtain ⟨hiff, hends⟩ := link_ends circle {}
  exact ⟨hstraight, hends hstraight, hiff.1 (hends hstraight)⟩

/-! ## A program without end -/

/-- A module that can be opened always asks for the same. -/
def Opens (s : Setting) (m : Module) (required : Requirements) : Prop :=
  ∀ σ, ∃ ρ, Runs (openModule s m) σ (.ok required) ρ

theorem opens_of_read (content : Bytes) {text : String}
    (hname : isRelative m.name = false) (hpage : m.documentation = none)
    (hread : s.files.read? m.file = some content) (htext : s.strings.source? content = some text)
    (hchrome : chromeLines (cutAfterLineFeed text.toList) = []) :
    Opens s m (requirements (cutAfterLineFeed text.toList)) := by
  intro σ
  have hcontent : contentOf s.files m.file = .ok content := by rw [contentOf, hread]
  have hlines : linesOf s m.file = .ok (cutAfterLineFeed text.toList) :=
    bind_ok_iff.2 ⟨content, hcontent, by rw [htext]; rfl⟩
  have hhash : hashFile s.files m.file = .ok ⟨m.file, Digest.hex content⟩ :=
    bind_ok_iff.2 ⟨content, hcontent, rfl⟩
  have hproblem : chromeProblem? m.file (cutAfterLineFeed text.toList) = none := by
    rw [chromeProblem?, hchrome]
    split <;> rfl
  let hashed : HashedFile := ⟨m.file, Digest.hex content⟩
  let ρ := (σ.claimed m.toPlace).update m.toPlace fun e => { e with source := some hashed }
  have henter : Runs (enterFiles s m) σ (.ok ()) ρ := by
    rw [enterFiles, hpage]
    exact runs_bind_ok_iff.2 ⟨_, _, runs_claim_iff.2 ⟨rfl, rfl⟩, runs_bind_ok_iff.2
      ⟨hashed, _, runs_perform_ok_iff.2 ⟨hhash, rfl⟩, runs_bind_ok_iff.2
      ⟨_, ρ, runs_updateEntry_iff.2 ⟨rfl, rfl⟩, runs_pure_iff.2 ⟨rfl, rfl⟩⟩⟩⟩
  refine ⟨ρ, ?_⟩
  rw [openModule, hname]
  refine runs_bind_ok_iff.2 ⟨_, _, henter, runs_bind_ok_iff.2
    ⟨_, _, runs_perform_ok_iff.2 ⟨hlines, rfl⟩, ?_⟩⟩
  rw [hproblem]
  exact runs_pure_iff.2 ⟨rfl, rfl⟩

/-- A module that asks for a single new one, which cannot be followed to the end. -/
theorem follow_endless {other : Module} {line : Option Nat} (hopens : Opens s m [(name, line)])
    (hfree : isProvided name = false) (hmeans : Means s m name line (some other))
    (hnew : other ∉ σ.followed) (h : ∀ ρ : Manifest, ρ.followed = σ.followed ++ [other] →
      ∃ τ, Runs (follow s d other) ρ (.error .endless) τ) :
    ∃ τ, Runs (follow s (d + 1) m) σ (.error .endless) τ := by
  obtain ⟨ρ, hopen⟩ := hopens σ
  have hρ : ρ.followed = σ.followed := (runs_enterFiles (runs_openModule hopen).1).2.2
  obtain ⟨trail, hsearch⟩ := hmeans
  -- The search is noted, and the module that is found is followed.
  let ρ' : Manifest := { ρ with notes := ρ.notes ++ trail.notes }
  have hnote : Runs (runSearch (resolve s m name line)) ρ
      (.ok (some other, trail.lookedIn)) ρ' := by
    rw [runs_runSearch_iff, hsearch]
    exact ⟨rfl, rfl⟩
  obtain ⟨τ, hfollow⟩ := h (ρ'.reached other) (by rw [Manifest.reached, ← hρ])
  have hreach : Runs (reach (follow s d) other) ρ' (.error .endless) τ := by
    rw [runs_reach_iff, if_neg (by rw [← hρ] at hnew; exact hnew)]
    exact hfollow
  have hsettle : Runs (settle s (reach (follow s d)) m [(name, line)] name) ρ
      (.error .endless) τ := by
    have hline : Assoc.get? [(name, line)] name = some line := if_pos rfl
    rw [settle, hfree]
    simp only [hline, Option.getD_some, Bool.false_eq_true, if_false]
    exact runs_bind_iff.2 (.inl ⟨_, _, hnote, runs_bind_iff.2 (.inr ⟨_, rfl, hreach⟩)⟩)
  refine ⟨τ, runs_bind_iff.2 (.inl ⟨_, _, hopen, ?_⟩)⟩
  rw [show sortedStrings (Assoc.keys [(name, line)]) = [name] from sortedStrings_eq _]
  exact runs_bind_iff.2 (.inr ⟨_, rfl, hsettle⟩)

/-- The program: its main module asks for `d/m`, and that for itself with one slash too many. -/
def crooked : Setting :=
  lone [source ["lib", "main.js"] "require('./d/m')", (["lib", "d"], .dir),
    source ["lib", "d", "m.js"] "require('.//m')"]

def longName (k : Nat) : String := joinStrings "/" ("d" :: (List.replicate k "" ++ ["m"]))

def longModule (k : Nat) : Module :=
  ⟨⟨"lone", "lib", longName k⟩, joinAll "/" ["lib", longName k ++ ".js"], none⟩

theorem names_longName (k : Nat) : names (longName k) = "d" :: (List.replicate k "" ++ ["m"]) := by
  refine names_joinStrings (by simp) ?_
  intro n hn
  rcases mem_cons.1 hn with rfl | hn
  · decide
  · rcases mem_append.1 hn with hn | hn
    · rw [eq_of_mem_replicate hn]
      decide
    · rw [mem_singleton.1 hn]
      decide

theorem longName_injective {j k : Nat} (h : longName j = longName k) : j = k := by
  have hlen := congrArg (fun name => (names name).length) h
  simpa [names_longName] using hlen

theorem names_longName_append (hending : '/' ∉ ending.toList) (k : Nat) :
    names (longName k ++ ending) = "d" :: (List.replicate k "" ++ ["m" ++ ending]) := by
  obtain ⟨before, last, hbefore, hafter⟩ := names_append hending (longName k)
  rw [names_longName, ← cons_append] at hbefore
  obtain ⟨rfl, hlast⟩ := append_inj' hbefore rfl
  obtain rfl : "m" = last := by simpa using hlast
  exact hafter

/-- A name whose first part is `d` starts with no other part. -/
theorem beginsWith_eq_false (start : String) {rest : List String}
    (hname : names name = "d" :: rest) (hstart : start ≠ "d")
    (hslash : '/' ∉ start.toList) : beginsWith name (start ++ "/") = false := by
  rw [← Bool.not_eq_true, beginsWith_iff]
  rintro ⟨t, rfl⟩
  rw [names_append_slash, names_of_not_mem hslash] at hname
  exact hstart (List.cons.inj hname).1

theorem endsWith_longName (ending : String) (hslash : '/' ∉ ending.toList)
    (hlen : 1 < ending.length) (k : Nat) : endsWith (longName k) ending = false := by
  rw [← Bool.not_eq_true, endsWith_iff]
  rintro ⟨t, ht⟩
  obtain ⟨before, last, -, hafter⟩ := names_append hslash t
  rw [← ht, names_longName, ← cons_append] at hafter
  have hlast : "m" = last ++ ending := by simpa using (append_inj' hafter rfl).2
  have hone := congrArg String.length hlast
  rw [String.length_append] at hone
  have : "m".length = 1 := rfl
  omega

theorem fileName_longName (k : Nat) :
    fileName (longName k) = (longName k ++ ".js", longName k) := by
  have hjs := endsWith_longName ".js" (by decide) (by decide) k
  have hjson := endsWith_longName ".json" (by decide) (by decide) k
  have hnone : beforeEnd? (longName k) ".json" = none := by
    rw [endsWith, Option.isSome_eq_false_iff, Option.isNone_iff_eq_none] at hjson
    rw [beforeEnd?, hjson]
    rfl
  rw [fileName, hjs, hnone]
  rfl

theorem isRelative_longName (k : Nat) : isRelative (longName k) = false := by
  have hdot := beginsWith_eq_false "." (names_longName k) (by decide) (by decide)
  have hdots := beginsWith_eq_false ".." (names_longName k) (by decide) (by decide)
  rw [isRelative, show ("./" : String) = "." ++ "/" from rfl,
    show ("../" : String) = ".." ++ "/" from rfl, hdot, hdots]
  rfl

theorem node?_longName {dir : String} (hslash : '/' ∉ ending.toList)
    (hjoin : Path.join "/" dir = "/" ++ dir)
    (hend : (("/" ++ dir).isEmpty || endsWith ("/" ++ dir) "/") = false)
    (hname : Path.names dir = [dir]) (k : Nat) :
    crooked.files.node? (Path.joinAll "/" [dir, longName k ++ ending]) =
      (crooked.files.tree.walk? []
        (dir :: "d" :: (List.replicate k "" ++ ["m" ++ ending]))).bind crooked.files.tree.get? := by
  have hnames := names_longName_append hslash k
  have habsolute : Path.isAbsolute (longName k ++ ending) = false :=
    beginsWith_eq_false "" hnames (by decide) (by decide)
  have hpath : Path.joinAll "/" [dir, longName k ++ ending] =
      "/" ++ (dir ++ "/" ++ (longName k ++ ending)) := by
    rw [Path.joinAll, foldl_cons, foldl_cons, foldl_nil, hjoin, Path.join, habsolute, hend]
    simp [String.append_assoc]
  rw [hpath, Files.node?_absolute, Path.names_append_slash, hname, hnames]
  rfl

theorem node?_longModule (k : Nat) : crooked.files.node? (longModule k).file =
    some (.file (Codec.utf8OfString "require('.//m')")) := by
  rw [longModule, node?_longName (by decide) (by decide) (by decide) (by decide),
    FileTree.walk?_cons (by decide) (by decide), FileTree.walk?_cons (by decide) (by decide),
    FileTree.walk?_replicate (by decide)]
  decide

theorem contains_page_longName (k : Nat) :
    crooked.files.contains (joinAll "/" ["docs", longName k ++ ".md"]) = false := by
  have hnode : crooked.files.node? (joinAll "/" ["docs", longName k ++ ".md"]) = none := by
    rw [node?_longName (by decide) (by decide) (by decide) (by decide),
      FileTree.walk?_cons (by decide) (by decide), FileTree.walk?]
    rfl
  rw [Files.contains, hnode]
  rfl

theorem opens_longModule (k : Nat) : Opens crooked (longModule k) [(".//m", some 1)] := by
  have htext : crooked.strings.source? (Codec.utf8OfString "require('.//m')") =
      some "require('.//m')" := by
    decide
  have hrequired : requirements (cutAfterLineFeed "require('.//m')".toList) =
      [(".//m", some 1)] := by
    decide
  have hread : crooked.files.read? (longModule k).file =
      some (Codec.utf8OfString "require('.//m')") := by
    rw [Files.read?, node?_longModule]
  rw [← hrequired]
  exact opens_of_read _ (isRelative_longName k) rfl hread htext (by decide)

theorem relativeName_longModule (k : Nat) :
    relativeName (longModule k) ".//m" = .ok (longName (k + 1)) := by
  have hbase : (names (longModule k).name).dropLast = "d" :: List.replicate k "" := by
    rw [longModule, names_longName, ← cons_append, dropLast_concat]
  have hnames : names ".//m" = [".", "", "m"] := by decide
  rw [relativeName, hbase, hnames, longName, replicate_succ']
  simp [climb]

theorem runs_firstFound_head {α β : Type} {look : α → Search (Option β)} {a : α} {l : List α}
    {b : β} {t t' : Trail} (h : Runs (look a) t (.ok (some b)) t') :
    Runs (firstFound look (a :: l)) t (.ok (some b)) t' :=
  runs_bind_ok_iff.2 ⟨_, _, h, runs_pure_iff.2 ⟨rfl, rfl⟩⟩

theorem means_longModule (k : Nat) :
    Means crooked (longModule k) ".//m" (some 1) (some (longModule (k + 1))) := by
  have hcontains : crooked.files.contains (longModule (k + 1)).file := by
    rw [Files.contains, node?_longModule]
    rfl
  have hpkg : Runs (inPackage crooked ["lib"] (longName (k + 1)) "lone") {}
      (.ok (some (longModule (k + 1)))) { lookedIn := [(longModule (k + 1)).file] } := by
    rw [inPackage, fileName_longName]
    refine runs_bind_ok_iff.2 ⟨loneConfig, {}, rfl, runs_firstFound_head ?_⟩
    refine runs_bind_ok_iff.2 ⟨["lib"], {}, rfl, runs_firstFound_head ?_⟩
    refine runs_bind_ok_iff.2 ⟨"/", {}, rfl, ?_⟩
    refine runs_bind_ok_iff.2 ⟨(), { lookedIn := [(longModule (k + 1)).file] }, rfl, ?_⟩
    have hfile : (display "lib" : String) = "lib" := by decide
    have hpath : crooked.files.contains (joinAll "/" ["lib", longName (k + 1) ++ ".js"]) =
        true := hcontains
    simp only [hfile, hpath, contains_page_longName, Bool.not_true, Bool.and_false,
      Bool.false_eq_true, if_false]
    exact runs_bind_ok_iff.2 ⟨"lone", _, rfl, rfl⟩
  refine ⟨{ lookedIn := [(longModule (k + 1)).file] }, ?_⟩
  rw [resolve, if_neg (by decide)]
  refine runs_bind_ok_iff.2 ⟨["lib"], {}, rfl, ?_⟩
  refine runs_bind_ok_iff.2 ⟨longName (k + 1), {}, ?_, ?_⟩
  · rw [relativeName_longModule]
    rfl
  · show Runs (inPackageIfKnown crooked ["lib"] (longName (k + 1)) "lone") _ _ _
    rw [inPackageIfKnown, if_pos (by decide)]
    exact hpkg

theorem follow_longModule (d k : Nat) (hσ : ∀ j, k < j → longModule j ∉ σ.followed) :
    ∃ τ, Runs (follow crooked d (longModule k)) σ (.error .endless) τ := by
  induction d generalizing k σ with
  | zero => exact ⟨σ, runs_throw_iff.2 ⟨rfl, rfl⟩⟩
  | succ d ih =>
    refine follow_endless (opens_longModule k) (by decide) (means_longModule k)
      (hσ _ (Nat.lt_succ_self k)) fun ρ hρ => ih (k + 1) fun j hj => ?_
    rw [hρ, mem_append, mem_singleton, not_or]
    refine ⟨hσ j (by omega), fun h => ?_⟩
    have hname := congrArg (fun m : Module => m.name) h
    have := longName_injective hname
    omega

theorem link_crooked (d : Nat) : (link crooked {} d).1 = .error .endless := by
  let main : Module := ⟨⟨"lone", "lib", "main"⟩, "/lib/main.js", none⟩
  have hmain : Assoc.get? crooked.target "main" = some (Value.str "main") := rfl
  have htop : topModule crooked (Value.str "main") = .ok main := by
    have hsome : (topModule crooked (Value.str "main")).toOption = some main := by decide
    cases hresult : topModule crooked (Value.str "main") with
    | error e => simp [hresult, Except.toOption] at hsome
    | ok m => simpa [hresult, Except.toOption] using hsome
  have hopens : Opens crooked main [("./d/m", some 1)] := by
    have hrequired : requirements (cutAfterLineFeed "require('./d/m')".toList) =
        [("./d/m", some 1)] := by
      decide
    rw [← hrequired]
    exact opens_of_read (Codec.utf8OfString "require('./d/m')") (by decide) rfl
      (by decide) (by decide) (by decide)
  have hfollow : ∃ τ, Runs (follow crooked d main) {} (.error .endless) τ := by
    cases d with
    | zero => exact ⟨_, runs_throw_iff.2 ⟨rfl, rfl⟩⟩
    | succ d =>
      refine follow_endless hopens (by decide) (means_iff.2 (by decide))
        not_mem_nil fun ρ hρ => follow_longModule d 0 fun j hj => ?_
      rw [hρ, nil_append, mem_singleton]
      intro h
      have := longName_injective (congrArg (fun m : Module => m.name) h)
      omega
  obtain ⟨τ, hfollow⟩ := hfollow
  have hlink : Runs (linkAll crooked {} (follow crooked d)) {} (.error .endless) τ := by
    refine runs_bind_iff.2 (.inr ⟨_, rfl, ?_⟩)
    rw [linkMain, hmain]
    exact runs_bind_iff.2 (.inl ⟨main, {}, runs_perform_ok_iff.2 ⟨htop, rfl⟩,
      runs_bind_iff.2 (.inr ⟨_, rfl, hfollow⟩)⟩)
  exact congrArg Prod.fst hlink

/-- **Linking need not end.** -/
theorem not_ends_crooked : ¬ Ends crooked {} := by
  rintro ⟨d, hd, -⟩
  exact hd (link_crooked d)

end AddonBuilder.Linker
