import Mathlib.Algebra.Group.Nat.Defs
import Mathlib.Data.List.TakeWhile
import Provision.Mount.Entry

/-!
# Which options are those that were asked for

A kernel shows the options of a file system in its own way. Which of them stand for those that were
asked for is said here of the texts, without a word on how they are compared.

* `Mount.Denotes`: how many bytes a size stands for.
* `Mount.Counterpart`: an observed option stands for a requested one.
* `sizeBytes?_eq_some`, `optionMatches_iff`: sizes are read, and options compared, accordingly.
* `satisfies_iff`: so a mounted file system is the requested one if and only if each requested option
  has a counterpart.
* `satisfies_options`: **so it is, whatever unit the kernel shows a size in, whatever it adds and in
  whatever order.**
-/

namespace Provision

namespace Mount

/-- The units of size, and how many bytes each of them stands for. -/
def unitFactors : List (String × Nat) :=
  [("", 1), ("k", 1024), ("K", 1024), ("m", 1024 ^ 2), ("M", 1024 ^ 2), ("g", 1024 ^ 3),
    ("G", 1024 ^ 3), ("t", 1024 ^ 4), ("T", 1024 ^ 4)]

/-- A decimal count and a unit stand for a number of bytes. -/
inductive Denotes : String → Nat → Prop
  | size {digits unit : String} {factor : Nat} : digits ≠ "" →
      (∀ c ∈ digits.toList, c.isDigit = true) → (unit, factor) ∈ unitFactors →
      Denotes (digits ++ unit) (Nat.ofDigitChars 10 digits.toList 0 * factor)

/-- An observed option stands for a requested one. What is left of the first `=` is the key. -/
inductive Counterpart : (observed requested : String) → Prop
  | same (option : String) : Counterpart option option
  /-- A percentage is requested, and anything is shown. -/
  | percentage {key : String} (shown want : String) : '=' ∉ key.toList →
      Counterpart (key ++ "=" ++ shown) (key ++ "=" ++ (want ++ "%"))
  /-- The same size is shown that is requested. -/
  | size {key shown want : String} {n : Nat} : '=' ∉ key.toList → Denotes shown n → Denotes want n →
      n < 2 ^ 64 → Counterpart (key ++ "=" ++ shown) (key ++ "=" ++ want)

/-! ### Sizes -/

/-- A unit is read as the power of two that it stands for, and does not start with a digit. -/
theorem unitShift?_of_mem : ∀ unit ∈ unitFactors,
    unitShift? unit.1.toList = some unit.2.log2 ∧ unit.2 = 2 ^ unit.2.log2 ∧
      unit.1.toList.takeWhile Char.isDigit = [] ∧
      unit.1.toList.dropWhile Char.isDigit = unit.1.toList := by decide

theorem mem_of_unitShift? {unit : List Char} {shift : Nat} (h : unitShift? unit = some shift) :
    (String.ofList unit, 2 ^ shift) ∈ unitFactors := by
  unfold unitShift? at h
  split at h <;> cases h <;> decide

theorem ofDigits_eq (digits : List Char) : Decimal.ofDigits digits = Nat.ofDigitChars 10 digits 0 :=
  Nat.ofDigitChars_eq_foldl.symm

theorem denotes_ofList {digits unit : List Char} {shift : Nat} (hne : digits ≠ [])
    (hdigits : ∀ c ∈ digits, c.isDigit = true) (hunit : unitShift? unit = some shift) :
    Denotes (.ofList (digits ++ unit)) (Nat.ofDigitChars 10 digits 0 * 2 ^ shift) := by
  rw [String.ofList_append]
  have hsize : Denotes (.ofList digits ++ .ofList unit)
      (Nat.ofDigitChars 10 (String.ofList digits).toList 0 * 2 ^ shift) :=
    .size (by simpa using hne) (by simpa using hdigits) (mem_of_unitShift? hunit)
  rwa [String.toList_ofList] at hsize

/-- A number and a unit. -/
theorem denotes_toString (m : Nat) {unit : String} {factor : Nat} (hunit : (unit, factor) ∈ unitFactors) :
    Denotes (toString m ++ unit) (m * factor) := by
  have hdigits : (toString m).toList = Nat.toDigits 10 m := Nat.toList_repr
  have hsize : Denotes (toString m ++ unit)
      (Nat.ofDigitChars 10 (toString m).toList 0 * factor) := by
    refine .size ?_ (fun c hc => ?_) hunit
    · rw [ne_eq, ← String.toList_eq_nil_iff, hdigits]
      exact Nat.toDigits_ne_nil
    · rw [hdigits] at hc
      exact Nat.isDigit_of_mem_toDigits (by decide) (by decide) hc
  rwa [hdigits, Nat.ofDigitChars_ten_toDigits] at hsize

/-- **The size that is read is the one that the text stands for.** -/
theorem sizeBytes?_eq_some {value : String} {n : Nat} :
    sizeBytes? value.toList = some n ↔ Denotes value n ∧ n < 2 ^ 64 := by
  have hsize : UInt64.size = 2 ^ 64 := rfl
  constructor
  · intro h
    unfold sizeBytes? at h
    dsimp only at h
    split at h
    · cases h
    · rename_i hcount
      rw [not_or] at hcount
      obtain ⟨shift, hshift, hbytes⟩ := Option.bind_eq_some_iff.1 h
      split at hbytes
      · rename_i hlt
        obtain rfl := Option.some.inj hbytes
        have hden := denotes_ofList hcount.1 (fun c hc => List.mem_takeWhile_imp hc) hshift
        rw [List.takeWhile_append_dropWhile, String.ofList_toList, ← ofDigits_eq,
          ← Nat.shiftLeft_eq] at hden
        exact ⟨hden, hlt⟩
      · cases hbytes
  · rintro ⟨hden, hlt⟩
    obtain @⟨digits, unit, factor, hne, hdigits, hunit⟩ := hden
    obtain ⟨hshift, hfactor, htake, hdrop⟩ := unitShift?_of_mem _ hunit
    dsimp only at hshift hfactor htake hdrop
    have hpos : 0 < factor := by rw [hfactor]; exact Nat.two_pow_pos _
    have hcount : Nat.ofDigitChars 10 digits.toList 0 < UInt64.size :=
      Nat.lt_of_le_of_lt (Nat.le_mul_of_pos_right _ hpos) hlt
    unfold sizeBytes?
    rw [String.toList_append, List.takeWhile_append_of_pos hdigits, htake, List.append_nil,
      List.dropWhile_append_of_pos hdigits, hdrop, hshift]
    dsimp only
    rw [ofDigits_eq, if_neg (by simpa [not_or, String.toList_eq_nil_iff] using ⟨hne, hcount⟩),
      Option.bind_some, Nat.shiftLeft_eq, ← hfactor, hsize, if_pos hlt]

/-- The same size is the same number of bytes. -/
theorem sameSize_iff {shown want : String} :
    sameSize shown.toList want.toList = true ↔ ∃ n, Denotes shown n ∧ Denotes want n ∧ n < 2 ^ 64 := by
  unfold sameSize
  constructor
  · intro h
    split at h
    · rename_i m n hm hn
      obtain rfl : m = n := by simpa using h
      exact ⟨m, (sizeBytes?_eq_some.1 hm).1, sizeBytes?_eq_some.1 hn⟩
    · cases h
  · rintro ⟨n, hshown, hwant, hlt⟩
    rw [sizeBytes?_eq_some.2 ⟨hshown, hlt⟩, sizeBytes?_eq_some.2 ⟨hwant, hlt⟩]
    exact beq_self_eq_true n

/-! ### Options -/

/-- An option with a key is cut into its key and its value. -/
theorem splitOnce_option {option : String} {key value : List Char} :
    Text.splitOnce '=' option.toList = some (key, value) ↔
      '=' ∉ key ∧ option = .ofList key ++ "=" ++ .ofList value := by
  rw [Text.splitOnce_eq_some, ← String.toList_inj]
  simp

/-- **Comparing options finds the counterparts, and nothing else.** -/
theorem optionMatches_iff {observed requested : String} :
    optionMatches observed requested = true ↔ Counterpart observed requested := by
  unfold optionMatches
  rw [Bool.or_eq_true, beq_iff_eq]
  constructor
  · rintro (rfl | h)
    · exact .same observed
    · split at h
      · rename_i key shown wanted want hobserved hrequested
        rw [Bool.and_eq_true, beq_iff_eq, Bool.or_eq_true, beq_iff_eq] at h
        obtain ⟨rfl, h⟩ := h
        obtain ⟨hkey, rfl⟩ := splitOnce_option.1 hobserved
        obtain ⟨-, rfl⟩ := splitOnce_option.1 hrequested
        rw [← String.toList_ofList (l := key)] at hkey
        rcases h with hlast | hsize
        · obtain ⟨front, rfl⟩ := List.getLast?_eq_some_iff.1 hlast
          rw [String.ofList_append]
          exact .percentage _ _ hkey
        · rw [← String.toList_ofList (l := shown), ← String.toList_ofList (l := want)] at hsize
          obtain ⟨n, hshown, hwant, hlt⟩ := sameSize_iff.1 hsize
          exact .size hkey hshown hwant hlt
      · cases h
  · intro h
    have hcut : ∀ {key : String}, '=' ∉ key.toList → ∀ value : String,
        Text.splitOnce '=' (key ++ "=" ++ value).toList = some (key.toList, value.toList) :=
      fun hkey value => splitOnce_option.2 ⟨hkey, by simp⟩
    cases h with
    | same option => exact .inl rfl
    | percentage shown want hkey =>
      right
      rw [hcut hkey, hcut hkey]
      simp
    | size hkey hshown hwant hlt =>
      right
      rw [hcut hkey, hcut hkey]
      simp [sameSize_iff.2 ⟨_, hshown, hwant, hlt⟩]

/-- A kernel that shows a size in another unit shows a counterpart. -/
theorem counterpart_kibibytes {key unit : String} {count factor : Nat} (hkey : '=' ∉ key.toList)
    (hunit : (unit, factor) ∈ unitFactors) (hlt : count * factor < 2 ^ 64)
    (hwhole : 1024 ∣ count * factor) :
    Counterpart (key ++ "=" ++ (toString (count * factor / 1024) ++ "k"))
      (key ++ "=" ++ (toString count ++ unit)) := by
  have hshown : Denotes (toString (count * factor / 1024) ++ "k") (count * factor / 1024 * 1024) :=
    denotes_toString _ (by decide)
  rw [Nat.div_mul_cancel hwhole] at hshown
  exact .size hkey hshown (denotes_toString count hunit) hlt

end Mount

namespace MountEntry

open Mount

variable {resolve : Path → Option Path} {e : MountEntry} {spec : MountSpec}

theorem satisfies_iff : e.satisfies resolve spec = true ↔
    sameTarget resolve e.target spec.target = true ∧ (spec.isBind = true ∨
      (sameSource resolve e.source spec.source = true ∧ (spec.fstype = "auto" ∨ e.fstype = spec.fstype) ∧
        ∀ wanted ∈ spec.options, isUserspace wanted = false →
          ∃ shown ∈ e.options, Counterpart shown wanted)) := by
  unfold satisfies
  simp only [Bool.and_eq_true, Bool.or_eq_true, beq_iff_eq, List.all_eq_true, List.mem_filter,
    List.any_eq_true, optionMatches_iff, Bool.not_eq_true', and_imp, and_assoc]

/-- **Which options a mounted file system has to show.** If it is no bind mount, and is at the
requested target, of the requested source and type, it is the requested one if and only if each
requested option that a kernel may show has a counterpart among those observed. A kernel that shows
a size in kibibytes shows a counterpart, whatever the unit was; and options that it adds, and the order
of options on either side, do not matter. -/
theorem satisfies_options :
    (∀ (resolve : Path → Option Path) (e : MountEntry) (spec : MountSpec), spec.isBind = false →
      sameTarget resolve e.target spec.target = true → sameSource resolve e.source spec.source = true →
      (spec.fstype = "auto" ∨ e.fstype = spec.fstype) →
      (e.satisfies resolve spec = true ↔ ∀ wanted ∈ spec.options, isUserspace wanted = false →
        ∃ shown ∈ e.options, Counterpart shown wanted)) ∧
    (∀ key count unit factor, '=' ∉ key.toList → (unit, factor) ∈ unitFactors →
      count * factor < 2 ^ 64 → 1024 ∣ count * factor →
      optionMatches (key ++ "=" ++ (toString (count * factor / 1024) ++ "k"))
        (key ++ "=" ++ (toString count ++ unit)) = true) ∧
    ∀ (resolve : Path → Option Path) (e : MountEntry) (spec : MountSpec)
      (observed requested : List String),
      e.options ⊆ observed → spec.options.Perm requested → e.satisfies resolve spec = true →
      MountEntry.satisfies resolve { e with options := observed }
        { spec with options := requested } = true := by
  refine ⟨fun resolve e spec hbind htarget hsource hfstype => ?_,
    fun key count unit factor hkey hunit hlt hwhole => ?_,
    fun resolve e spec observed requested hadd hperm h => ?_⟩
  · rw [satisfies_iff, hbind]
    simp [htarget, hsource, hfstype]
  · exact optionMatches_iff.2 (counterpart_kibibytes hkey hunit hlt hwhole)
  · obtain ⟨htarget, h⟩ := satisfies_iff.1 h
    refine satisfies_iff.2 ⟨htarget, ?_⟩
    rcases h with hbind | ⟨hsource, hfstype, hall⟩
    · left
      unfold MountSpec.isBind at hbind ⊢
      rwa [← hperm.any_eq]
    · refine .inr ⟨hsource, hfstype, fun wanted hwanted huser => ?_⟩
      obtain ⟨shown, hshown, hmatch⟩ := hall wanted (hperm.mem_iff.2 hwanted) huser
      exact ⟨shown, hadd hshown, hmatch⟩

/-- A file system in memory of one gibibyte, and how a kernel shows it. -/
def scratch : MountSpec := ⟨"tmpfs", ⟨"/scratch"⟩, "tmpfs", ["nofail", "size=1G"]⟩

def shownScratch : MountEntry := ⟨"tmpfs", ⟨"/scratch"⟩, "tmpfs", ["size=1048576k", "rw"]⟩

theorem satisfies_options_scratch : shownScratch.satisfies some scratch = true ∧
    MountEntry.satisfies some { shownScratch with options := ["rw", "relatime", "size=1048576k"] }
      { scratch with options := ["size=1G", "nofail"] } = true := by
  have hshow : "size" ++ "=" ++ (toString (1 * 1024 ^ 3 / 1024) ++ "k") = "size=1048576k" := by decide
  have hsize : optionMatches "size=1048576k" "size=1G" = true :=
    hshow ▸ satisfies_options.2.1 "size" 1 "G" (1024 ^ 3) (by decide) (by decide) (by decide) (by decide)
  have hshown : shownScratch.satisfies some scratch = true := by
    refine (satisfies_options.1 some shownScratch scratch (by decide) (by decide) (by decide)
      (.inr rfl)).2 fun wanted hwanted huser => ?_
    rcases List.mem_cons.1 hwanted with rfl | hwanted
    · exact absurd huser (by decide)
    · rw [List.mem_singleton.1 hwanted]
      exact ⟨"size=1048576k", by decide, optionMatches_iff.1 hsize⟩
  exact ⟨hshown, satisfies_options.2.2 some shownScratch scratch _ _ (by decide)
    (List.Perm.swap _ _ _) hshown⟩

end MountEntry

end Provision
