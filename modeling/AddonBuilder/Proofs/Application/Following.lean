import AddonBuilder.Application.Output
import AddonBuilder.Proofs.Text.Strings
import Mathlib.Data.List.Induction

/-!
# Following a file that grows

An application adds to a file while a follower looks at it.
-/

namespace AddonBuilder.Application

open List

variable {k : Strings}

/-- Bytes that can be read as a string: all of them, if strings are held as bytes. -/
def IsText (k : Strings) (bytes : Bytes) : Prop := (k.read? bytes).isSome = true

theorem isText_nil : IsText k [] := by
  cases k <;> rfl

theorem IsText.append {a b : Bytes} (ha : IsText k a) (hb : IsText k b) : IsText k (a ++ b) := by
  obtain ⟨s, hs⟩ := Option.isSome_iff_exists.1 ha
  obtain ⟨t, ht⟩ := Option.isSome_iff_exists.1 hb
  exact Option.isSome_iff_exists.2 ⟨_, Strings.read?_append hs ht⟩

/-- What happens next: the application adds to the file, or the follower does the next half of a
look. -/
inductive Move where
  | add (more : Bytes)
  | go
deriving DecidableEq, Repr

/-- A file and its follower.  The last two fields are only there to speak about the past. -/
structure Following where
  /-- The file, once there is one. -/
  content : Option Bytes := none
  follower : Follower := {}
  /-- Whether growth was noticed and not read yet. -/
  isDue : Bool := false
  /-- What the looks gave, the first one first. -/
  items : List (Option Bytes) := []
  /-- The file as it was when it was read last. -/
  atRead : Bytes := []
  /-- The file as it was when its size was taken last. -/
  atCheck : Bytes := []

namespace Following

def bytes (s : Following) : Bytes := s.content.getD []

/-- All that was given, one item after another; an item that is missing counts as empty. -/
def yielded (s : Following) : Bytes := s.items.flatMap (·.getD [])

def check (s : Following) : Following :=
  match s.content.bind fun bytes => s.follower.notice? bytes.length with
  | none => { s with items := s.items ++ [none], atCheck := s.bytes }
  | some follower => { s with follower, isDue := true, atCheck := s.bytes }

def read (s : Following) : Following :=
  { s with
    follower := (s.follower.read s.bytes).2
    isDue := false
    items := s.items ++ [some (s.follower.read s.bytes).1]
    atRead := s.bytes }

def move (s : Following) : Move → Following
  | .add more => { s with content := some (s.bytes ++ more) }
  | .go => if s.isDue then s.read else s.check

/-- What comes of moves, where there is no file at first and nothing was looked at. -/
def run (moves : List Move) : Following := moves.foldl move {}

/-- A look during which nothing is written. -/
def lookOn (s : Following) : Following :=
  if (s.move .go).isDue then (s.move .go).move .go else s.move .go

/-- How the follower's two numbers fit the file. -/
structure Tracks (s : Following) : Prop where
  yielded : s.yielded = s.bytes.take s.follower.pos
  atRead : s.yielded = s.atRead
  pos_le : s.follower.pos ≤ s.bytes.length
  noticed_le : s.follower.size ≤ s.bytes.length
  checked : s.atCheck <+: s.bytes
  /-- What was noticed and read lies before the place that was reached. -/
  size_le : s.isDue = false → s.follower.size ≤ s.follower.pos
  atCheck : s.isDue = false → s.atCheck <+: s.yielded

variable {s : Following}

/-- The size of the file has not grown, or that is noted. -/
theorem check_cases (s : Following) :
    (s.bytes.length ≤ s.follower.size ∧
      s.check = { s with items := s.items ++ [none], atCheck := s.bytes }) ∨
    (s.follower.size < s.bytes.length ∧
      s.check = { s with
        follower := { s.follower with size := s.bytes.length }, isDue := true, atCheck := s.bytes }) := by
  unfold check bytes
  cases s.content with
  | none => exact .inl ⟨Nat.zero_le _, rfl⟩
  | some bytes =>
    by_cases hsize : s.follower.size < bytes.length
    · exact .inr ⟨hsize, by simp [Follower.notice?, hsize]⟩
    · exact .inl ⟨Nat.not_lt.1 hsize, by simp [Follower.notice?, hsize]⟩

theorem yielded_concat {t : Following} {item : Option Bytes} (h : t.items = s.items ++ [item]) :
    t.yielded = s.yielded ++ item.getD [] := by
  simp [yielded, h]

theorem tracks_start : Tracks {} where
  yielded := rfl
  atRead := rfl
  pos_le := Nat.le_refl 0
  noticed_le := Nat.le_refl 0
  checked := prefix_rfl
  size_le _ := Nat.le_refl 0
  atCheck _ := prefix_rfl

namespace Tracks

variable (h : s.Tracks)

include h

theorem add (more : Bytes) : (s.move (.add more)).Tracks := by
  have hlen : s.bytes.length ≤ (s.bytes ++ more).length := length_append ▸ Nat.le_add_right _ _
  exact {
    yielded := h.yielded.trans (take_append_of_le_length h.pos_le).symm
    atRead := h.atRead
    pos_le := Nat.le_trans h.pos_le hlen
    noticed_le := Nat.le_trans h.noticed_le hlen
    checked := h.checked.trans (prefix_append _ _)
    size_le := h.size_le
    atCheck := h.atCheck }

theorem yielded_eq (hdue : s.isDue = false) (hsize : s.bytes.length ≤ s.follower.size) :
    s.yielded = s.bytes := by
  rw [h.yielded, take_of_length_le (Nat.le_trans hsize (h.size_le hdue))]

theorem check (hdue : s.isDue = false) : s.check.Tracks := by
  rcases s.check_cases with ⟨hsize, hcheck⟩ | ⟨hsize, hcheck⟩
  · have hsame : s.check.yielded = s.yielded :=
      (yielded_concat (congrArg items hcheck)).trans (append_nil _)
    have hall := hsame.trans (h.yielded_eq hdue hsize)
    rw [hcheck] at hsame hall ⊢
    exact {
      yielded := hsame.trans h.yielded
      atRead := hsame.trans h.atRead
      pos_le := h.pos_le
      noticed_le := h.noticed_le
      checked := prefix_rfl
      size_le := h.size_le
      atCheck := fun _ => hall ▸ prefix_rfl }
  · rw [hcheck]
    exact {
      yielded := h.yielded
      atRead := h.atRead
      pos_le := h.pos_le
      noticed_le := Nat.le_refl _
      checked := prefix_rfl
      size_le := fun hfalse => Bool.noConfusion hfalse
      atCheck := fun hfalse => Bool.noConfusion hfalse }

/-- Reading goes on exactly where the last reading ended. -/
theorem yielded_read : s.read.yielded = s.bytes := by
  rw [yielded_concat (s := s) rfl, h.yielded]
  exact take_append_drop _ _

theorem read : s.read.Tracks where
  yielded := by
    rw [h.yielded_read]
    exact (take_of_length_le (Nat.le_max_right _ _)).symm
  atRead := h.yielded_read
  pos_le := Nat.max_le.2 ⟨h.pos_le, Nat.le_refl _⟩
  noticed_le := h.noticed_le
  checked := h.checked
  size_le _ := Nat.le_trans h.noticed_le (Nat.le_max_right _ _)
  atCheck _ := h.yielded_read ▸ h.checked

theorem move (m : Move) : (s.move m).Tracks := by
  cases m with
  | add more => exact h.add more
  | go =>
    show (if s.isDue then s.read else s.check).Tracks
    cases hs : s.isDue with
    | true => exact h.read
    | false => exact h.check hs

end Tracks

theorem tracks_run (moves : List Move) : (run moves).Tracks := by
  induction moves using reverseRecOn with
  | nil => exact tracks_start
  | append_singleton moves m ih =>
    rw [run, foldl_append]
    exact ih.move m

/-- What is not read yet is a text, and so is every item. -/
def Textual (k : Strings) (s : Following) : Prop :=
  IsText k (s.bytes.drop s.follower.pos) ∧ ∀ bytes, some bytes ∈ s.items → IsText k bytes

theorem Textual.go (h : s.Textual k) : (s.move .go).Textual k := by
  show (if s.isDue then s.read else s.check).Textual k
  cases s.isDue with
  | true =>
    refine ⟨?_, fun bytes hbytes => ?_⟩
    · show IsText k (s.bytes.drop (max s.follower.pos s.bytes.length))
      rw [drop_eq_nil_of_le (Nat.le_max_right _ _)]
      exact isText_nil
    · rcases mem_append.1 hbytes with hbytes | hbytes
      · exact h.2 bytes hbytes
      · obtain rfl := Option.some.inj (mem_singleton.1 hbytes)
        exact h.1
  | false =>
    show s.check.Textual k
    rcases s.check_cases with ⟨-, hcheck⟩ | ⟨-, hcheck⟩
    · rw [hcheck]
      refine ⟨h.1, fun bytes hbytes => ?_⟩
      rcases mem_append.1 hbytes with hbytes | hbytes
      · exact h.2 bytes hbytes
      · cases mem_singleton.1 hbytes
    · rw [hcheck]
      exact h

theorem Textual.add (h : s.Textual k) (htracks : s.Tracks) {more : Bytes} (hmore : IsText k more) :
    (s.move (.add more)).Textual k := by
  refine ⟨?_, h.2⟩
  show IsText k ((s.bytes ++ more).drop s.follower.pos)
  rw [drop_append_of_le_length htracks.pos_le]
  exact h.1.append hmore

theorem textual_run {moves : List Move} (h : ∀ more, .add more ∈ moves → IsText k more) :
    (run moves).Textual k := by
  induction moves using reverseRecOn with
  | nil => exact ⟨isText_nil, fun _ hnone => (not_mem_nil hnone).elim⟩
  | append_singleton moves m ih =>
    have hmoves := ih fun more hmore => h more (mem_append_left _ hmore)
    rw [run, foldl_append]
    cases m with
    | go => exact hmoves.go
    | add more => exact hmoves.add (tracks_run moves) (h more (by simp))

/-- A look during which nothing is written is a look at the file as it is. -/
theorem items_lookOn (hdue : s.isDue = false) :
    s.lookOn.items = s.items ++ [(s.follower.look s.content).1] := by
  have hgo : s.move .go = s.check := by rw [Following.move, hdue]; rfl
  rw [lookOn, hgo]
  unfold Following.check Follower.look
  cases hcontent : s.content with
  | none => simp [hdue]
  | some bytes =>
    cases hnotice : s.follower.notice? bytes.length with
    | none => simp [hnotice, hdue]
    | some w => simp [hnotice, Following.move, Following.read, Following.bytes, hcontent]

/-- **Following a file loses nothing and repeats nothing.**  At any time, what the looks gave is the
beginning of the file, and it is the whole file as it was when it was read last; after a whole look it
has everything that was there when the look began.  Where the application adds whole texts, every look
gives a text, and a look during which nothing is written gives what `Follower.look` gives. -/
theorem run_yielded (k : Strings) (moves : List Move) :
    (run moves).yielded <+: (run moves).bytes ∧ (run moves).yielded = (run moves).atRead ∧
      ((run moves).isDue = false → (run moves).atCheck <+: (run moves).yielded) ∧
      ((∀ more, .add more ∈ moves → IsText k more) →
        ∀ item ∈ (run moves).items, ∃ added, addedText k item = .ok added) ∧
      ((run moves).isDue = false → (run moves).lookOn.items =
        (run moves).items ++ [((run moves).follower.look (run moves).content).1]) := by
  have h := tracks_run moves
  refine ⟨h.yielded ▸ List.take_prefix _ _, h.atRead, h.atCheck, fun htexts item hitem => ?_,
    items_lookOn⟩
  cases item with
  | none => exact ⟨none, rfl⟩
  | some bytes =>
    obtain ⟨added, hadded⟩ := Option.isSome_iff_exists.1 ((textual_run htexts).2 bytes hitem)
    exact ⟨some added, by rw [addedText, hadded]⟩

-- What is written between the halves of a look is given at once, and then found as growth again.
example : (run [.add [0x61], .go, .add [0x62], .go, .go, .go, .go]).items =
    [some [0x61, 0x62], some [], none] := by decide

end Following

end AddonBuilder.Application
