import Meridian.Discovery.Bootable
import Mathlib.Data.Prod.Lex

/-!
# The order of the loaders found

The list of loader files has the kernels first, the newest one at its head, and the rescue kernels behind
them. An insertion passes over rescue kernels, so a kernel that is older than all others is put behind the
rescue kernels that are there already.
-/

namespace Meridian.Discovery

open Text

/-! ### The order of the time stamps -/

def stampKey (t : EfiTime) : ℕ ×ₗ ℕ ×ₗ ℕ ×ₗ ℕ ×ₗ ℕ ×ₗ ℕ :=
  toLex (t.year, toLex (t.month, toLex (t.day, toLex (t.hour, toLex (t.minute, t.second)))))

theorem compare_lex {α : Type} [LinearOrder α] {a b : ℕ} {k₁ k₂ : α} {rest : Bool}
    (later : rest = true ↔ k₂ ≤ k₁) :
    (if a ≠ b then decide (a > b) else rest) = true ↔ toLex (b, k₂) ≤ toLex (a, k₁) := by
  rw [Prod.Lex.toLex_le_toLex]
  by_cases same : a = b
  · rw [if_neg (not_not.mpr same), later, same]
    constructor
    · exact fun le => .inr ⟨rfl, le⟩
    · rintro (lt | ⟨_, le⟩)
      · exact absurd lt (Nat.lt_irrefl _)
      · exact le
  · rw [if_pos same, decide_eq_true_iff]
    constructor
    · exact .inl
    · rintro (lt | ⟨eq, _⟩)
      · exact lt
      · exact absurd eq.symm same

theorem newerOrEqual_iff (t₁ t₂ : EfiTime) : newerOrEqual t₁ t₂ = true ↔ stampKey t₂ ≤ stampKey t₁ := by
  have seconds : (if t₁.second ≠ t₂.second then decide (t₁.second > t₂.second) else true) = true ↔
      t₂.second ≤ t₁.second := by
    by_cases same : t₁.second = t₂.second
    · rw [if_neg (not_not.mpr same), same]
      exact ⟨fun _ => Nat.le_refl _, fun _ => rfl⟩
    · rw [if_pos same, decide_eq_true_iff]
      exact ⟨Nat.le_of_lt, fun le => Nat.lt_of_le_of_ne le (Ne.symm same)⟩
  exact compare_lex (compare_lex (compare_lex (compare_lex (compare_lex seconds))))

theorem newerOrEqual_trans {t₁ t₂ t₃ : EfiTime} (first : newerOrEqual t₁ t₂ = true)
    (second : newerOrEqual t₂ t₃ = true) : newerOrEqual t₁ t₃ = true := by
  rw [newerOrEqual_iff] at first second ⊢
  exact second.trans first

theorem newerOrEqual_total {t₁ t₂ : EfiTime} (older : ¬ newerOrEqual t₁ t₂ = true) :
    newerOrEqual t₂ t₁ = true := by
  rw [newerOrEqual_iff] at older ⊢
  exact (not_le.mp older).le

/-! ### The order of the files -/

/-- What the list asks of a file and of one behind it. -/
def Precedes (file later : LoaderFile) : Prop :=
  isRescue later = true ∨ isRescue file = false ∧ newerOrEqual file.timeStamp later.timeStamp = true

/-- The kernels by their time stamps, the newest one first, and then the rescue kernels. -/
def KernelsFirst (list : List LoaderFile) : Prop :=
  ∃ kernels rescues, list = kernels ++ rescues ∧ (∀ file ∈ kernels, isRescue file = false) ∧
    (∀ file ∈ rescues, isRescue file = true) ∧
    kernels.Pairwise fun file later => newerOrEqual file.timeStamp later.timeStamp = true

theorem kernelsFirst_iff (list : List LoaderFile) : KernelsFirst list ↔ list.Pairwise Precedes := by
  constructor
  · rintro ⟨kernels, rescues, rfl, plain, rescue, sorted⟩
    refine List.pairwise_append.mpr ⟨?_, ?_, fun _ _ later mem => .inl (rescue later mem)⟩
    · exact sorted.imp_of_mem fun mem _ newer => .inr ⟨plain _ mem, newer⟩
    · exact List.pairwise_of_forall_mem_list fun _ _ later mem => .inl (rescue later mem)
  · intro ordered
    induction list with
    | nil => exact ⟨[], [], rfl, nofun, nofun, .nil⟩
    | cons file list ih =>
      obtain ⟨head, tail⟩ := List.pairwise_cons.mp ordered
      obtain ⟨kernels, rescues, rfl, plain, rescue, sorted⟩ := ih tail
      cases kind : isRescue file with
      | true =>
        have all : ∀ later ∈ kernels ++ rescues, isRescue later = true := by
          intro later mem
          rcases head later mem with rescue | ⟨impossible, _⟩
          · exact rescue
          · rw [kind] at impossible
            cases impossible
        refine ⟨[], file :: (kernels ++ rescues), rfl, nofun, ?_, .nil⟩
        intro later mem
        rcases List.mem_cons.mp mem with rfl | mem
        · exact kind
        · exact all later mem
      | false =>
        refine ⟨file :: kernels, rescues, rfl, ?_, rescue, List.pairwise_cons.mpr ⟨?_, sorted⟩⟩
        · intro later mem
          rcases List.mem_cons.mp mem with rfl | mem
          · exact kind
          · exact plain later mem
        · intro later mem
          rcases head later (List.mem_append_left _ mem) with impossible | ⟨_, newer⟩
          · rw [plain later mem] at impossible
            cases impossible
          · exact newer

/-! ### One insertion -/

/-- Some kernel of the list is not newer than the file. -/
def HasOlder (list : List LoaderFile) (file : LoaderFile) : Prop :=
  ∃ older ∈ list, isRescue older = false ∧ newerOrEqual file.timeStamp older.timeStamp = true

def HasRescue (list : List LoaderFile) : Prop := ∃ rescue ∈ list, isRescue rescue = true

variable {list : List LoaderFile} {file : LoaderFile}

theorem insertLoader_precedes (kernel : isRescue file = false) (stops : HasRescue list → HasOlder list file)
    (ordered : list.Pairwise Precedes) : (insertLoader file list).Pairwise Precedes := by
  induction list with
  | nil => exact List.pairwise_singleton _ _
  | cons current rest ih =>
    obtain ⟨head, tail⟩ := List.pairwise_cons.mp ordered
    rw [insertLoader]
    cases kind : isRescue current with
    | true =>
      -- only rescue kernels stand behind one, so that no kernel could stop the search
      obtain ⟨older, mem, plain, _⟩ := stops ⟨current, List.mem_cons_self, kind⟩
      rcases List.mem_cons.mp mem with rfl | mem
      · rw [kind] at plain
        cases plain
      · rcases head older mem with rescue | ⟨impossible, _⟩
        · rw [plain] at rescue
          cases rescue
        · rw [kind] at impossible
          cases impossible
    | false =>
      rw [if_neg Bool.false_ne_true]
      by_cases newer : newerOrEqual file.timeStamp current.timeStamp = true
      · rw [if_pos newer]
        refine List.pairwise_cons.mpr ⟨?_, ordered⟩
        intro later mem
        rcases List.mem_cons.mp mem with rfl | mem
        · exact .inr ⟨kernel, newer⟩
        · rcases head later mem with rescue | ⟨_, newer'⟩
          · exact .inl rescue
          · exact .inr ⟨kernel, newerOrEqual_trans newer newer'⟩
      · rw [if_neg newer]
        refine List.pairwise_cons.mpr ⟨?_, ih ?_ tail⟩
        · intro later mem
          rcases List.mem_cons.mp ((insertLoader_perm file rest).subset mem) with rfl | mem
          · exact .inr ⟨kind, newerOrEqual_total newer⟩
          · exact head later mem
        · rintro ⟨rescue, mem, rescue'⟩
          obtain ⟨older, mem', plain, newer'⟩ := stops ⟨rescue, List.mem_cons_of_mem _ mem, rescue'⟩
          rcases List.mem_cons.mp mem' with rfl | mem'
          · exact absurd newer' newer
          · exact ⟨older, mem', plain, newer'⟩

/-- A kernel that is older than all others is put behind the whole list. -/
theorem insertLoader_oldest (oldest : ¬ HasOlder list file) : insertLoader file list = list ++ [file] := by
  induction list with
  | nil => rfl
  | cons current rest ih =>
    have rest' : ¬ HasOlder rest file :=
      fun ⟨older, mem, found⟩ => oldest ⟨older, List.mem_cons_of_mem _ mem, found⟩
    rw [insertLoader, ih rest', List.cons_append]
    cases kind : isRescue current with
    | true => rw [if_pos rfl]
    | false =>
      rw [if_neg Bool.false_ne_true, if_neg fun newer => oldest ⟨current, List.mem_cons_self, kind, newer⟩]

theorem addLoaderListEntry_precedes (stops : isRescue file = false → HasRescue list → HasOlder list file)
    (ordered : list.Pairwise Precedes) : (addLoaderListEntry list file).Pairwise Precedes := by
  rw [addLoaderListEntry]
  cases kind : isRescue file with
  | true =>
    refine List.pairwise_append.mpr ⟨ordered, List.pairwise_singleton _ _, ?_⟩
    intro earlier _ later mem
    rw [List.mem_singleton.mp mem]
    exact .inl kind
  | false => exact insertLoader_precedes kind (stops kind) ordered

theorem insertLoader_sublist (file : LoaderFile) (list : List LoaderFile) :
    list.Sublist (insertLoader file list) := by
  induction list with
  | nil => exact List.nil_sublist _
  | cons current rest ih =>
    rw [insertLoader]
    split
    · exact ih.cons_cons current
    · split
      · exact List.sublist_cons_self file _
      · exact ih.cons_cons current

theorem addLoaderListEntry_sublist (list : List LoaderFile) (file : LoaderFile) :
    list.Sublist (addLoaderListEntry list file) := by
  rw [addLoaderListEntry]
  split
  · exact List.sublist_append_left _ _
  · exact insertLoader_sublist file list

/-- What an insertion that leaves the order right has found. -/
theorem stops_of_precedes (ordered : (addLoaderListEntry list file).Pairwise Precedes)
    (kernel : isRescue file = false) (rescue : HasRescue list) : HasOlder list file := by
  by_contra oldest
  obtain ⟨rescue, mem, rescue'⟩ := rescue
  rw [addLoaderListEntry, kernel, if_neg Bool.false_ne_true, insertLoader_oldest oldest] at ordered
  rcases (List.pairwise_append.mp ordered).2.2 rescue mem file List.mem_cons_self with impossible | ⟨impossible, _⟩
  · rw [kernel] at impossible
    cases impossible
  · rw [rescue'] at impossible
    cases impossible

/-! ### Repeated insertion -/

def listed (files : List LoaderFile) : List LoaderFile := files.foldl addLoaderListEntry []

theorem listed_append (files : List LoaderFile) (file : LoaderFile) :
    listed (files ++ [file]) = addLoaderListEntry (listed files) file := by
  rw [listed, List.foldl_append]
  rfl

theorem listed_perm (files : List LoaderFile) : (listed files).Perm files := by
  induction files using List.reverseRecOn with
  | nil => exact .refl _
  | append_singleton files file ih =>
    rw [listed_append]
    refine (addLoaderListEntry_perm _ file).trans ((ih.cons file).trans ?_)
    exact (List.perm_append_singleton file files).symm

theorem hasOlder_perm {files : List LoaderFile} (perm : list.Perm files) :
    HasOlder list file ↔ HasOlder files file :=
  exists_congr fun _ => and_congr_left' perm.mem_iff

theorem hasRescue_perm {files : List LoaderFile} (perm : list.Perm files) : HasRescue list ↔ HasRescue files :=
  exists_congr fun _ => and_congr_left' perm.mem_iff

/-- A kernel that comes after a rescue kernel is not older than all kernels before it. -/
def InTime (files : List LoaderFile) : Prop :=
  ∀ before file after, files = before ++ file :: after → isRescue file = false → HasRescue before →
    HasOlder before file

theorem inTime_append (files : List LoaderFile) (file : LoaderFile) : InTime (files ++ [file]) ↔
    InTime files ∧ (isRescue file = false → HasRescue files → HasOlder files file) := by
  constructor
  · intro inTime
    refine ⟨fun before other after split => ?_, inTime files file [] rfl⟩
    refine inTime before other (after ++ [file]) ?_
    rw [split, List.append_assoc, List.cons_append]
  · rintro ⟨inTime, last⟩ before other after split
    rcases List.eq_nil_or_concat after with rfl | ⟨after, end', rfl⟩
    · obtain ⟨rfl, same⟩ := List.append_inj' split rfl
      cases same
      exact last
    · rw [List.concat_eq_append, ← List.cons_append, ← List.append_assoc] at split
      exact inTime before other after (List.append_inj' split rfl).1

theorem listed_precedes (files : List LoaderFile) : (listed files).Pairwise Precedes ↔ InTime files := by
  induction files using List.reverseRecOn with
  | nil => exact ⟨fun _ before file after split => by simp at split, fun _ => .nil⟩
  | append_singleton files file ih =>
    rw [listed_append, inTime_append, ← ih]
    have perm := listed_perm files
    rw [← hasRescue_perm perm, ← hasOlder_perm perm]
    constructor
    · intro ordered
      exact ⟨ordered.sublist (addLoaderListEntry_sublist _ _), fun kernel => stops_of_precedes ordered kernel⟩
    · exact fun ⟨ordered, stops⟩ => addLoaderListEntry_precedes stops ordered

/-- The list that is built has every file once, and the kernels in order before the rescue kernels exactly
when no kernel came after a rescue kernel and was older than all kernels before it. -/
theorem listed_kernelsFirst (files : List LoaderFile) :
    ((listed files).Perm files ∧ KernelsFirst (listed files)) ↔ InTime files := by
  rw [and_iff_right (listed_perm files), kernelsFirst_iff, listed_precedes]

def rescueKernel : LoaderFile := ⟨"vmlinuz-0-rescue-a".toList, ⟨2024, 1, 1, 0, 0, 0⟩⟩
def newKernel : LoaderFile := ⟨"vmlinuz-6.8".toList, ⟨2024, 6, 1, 0, 0, 0⟩⟩

/-- A kernel that is found after the rescue kernel is put behind it. -/
theorem listed_rescueFirst : ¬ ((listed [rescueKernel, newKernel]).Perm [rescueKernel, newKernel] ∧
    KernelsFirst (listed [rescueKernel, newKernel])) := by
  rintro ⟨_, kernels⟩
  rw [kernelsFirst_iff] at kernels
  have built : listed [rescueKernel, newKernel] = [rescueKernel, newKernel] := by decide +kernel
  have rescue : isRescue rescueKernel = true := by decide +kernel
  have kernel : isRescue newKernel = false := by decide +kernel
  rw [built] at kernels
  rcases (List.pairwise_cons.mp kernels).1 newKernel List.mem_cons_self with impossible | ⟨impossible, _⟩
  · rw [kernel] at impossible
    cases impossible
  · rw [rescue] at impossible
    cases impossible

end Meridian.Discovery
