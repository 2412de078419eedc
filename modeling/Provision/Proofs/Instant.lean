import Mathlib.Data.String.Basic
import Mathlib.Algebra.Group.Basic
import Mathlib.Algebra.Order.Ring.Nat
import Mathlib.Tactic.Common
import Mathlib.Order.Monotone.Basic
import Provision.Instant

/-!
# Instants in the order of their texts

Instants are written with as few digits as are exact, so their texts differ in length. All the same,
an earlier instant has a lesser text: a `+` comes before a point, and both come before any digit.

* `Text.fixed_append_lt`: numbers of one width compare like the texts they begin.
* `Instant.fields`, `Instant` as a linear order: the order of the calendar and the clock.
* `Instant.tailFrom_lt`: the digits of a fraction, in groups of three up to the last that is not zero.
* `Instant.strictMono_rfc3339`: **texts of instants are ordered as the instants are.**
-/

namespace Provision

namespace Text

/-- Of two texts that begin with pieces of one length, the pieces decide first. -/
theorem append_lt_append {x y p q : List Char} (h : x.length = y.length) :
    x ++ p < y ++ q ↔ x < y ∨ x = y ∧ p < q := by
  induction x generalizing y with
  | nil =>
    obtain rfl := List.length_eq_zero_iff.1 h.symm
    simp
  | cons a x ih =>
    cases y with
    | nil => cases h
    | cons b y =>
      simp only [List.cons_append, List.cons_lt_cons_iff, ih (Nat.succ.inj h), List.cons.injEq]
      rw [and_or_left, or_assoc, and_assoc]

variable {width m n : Nat} {p q : List Char}

theorem digitChar_lt_digitChar {k l : Nat} (hk : k < 10) (hl : l < 10) :
    Nat.digitChar k < Nat.digitChar l ↔ k < l := by
  have table : ∀ k l : Fin 10, Nat.digitChar k < Nat.digitChar l ↔ k < l := by decide
  exact table ⟨k, hk⟩ ⟨l, hl⟩

theorem digitChar_inj {k l : Nat} (hk : k < 10) (hl : l < 10) :
    Nat.digitChar k = Nat.digitChar l ↔ k = l := by
  have table : ∀ k l : Fin 10, Nat.digitChar k = Nat.digitChar l ↔ (k : Nat) = l := by decide
  exact table ⟨k, hk⟩ ⟨l, hl⟩

theorem fixed_inj (hm : m < 10 ^ width) (hn : n < 10 ^ width) :
    fixed width m = fixed width n ↔ m = n := by
  refine ⟨fun h => ?_, fun h => by rw [h]⟩
  induction width generalizing m n with
  | zero => omega
  | succ width ih =>
    obtain ⟨hfront, hlast⟩ := List.append_inj' h rfl
    have hdiv := ih (m := m / 10) (n := n / 10) (by omega) (by omega) hfront
    have hmod := (digitChar_inj (Nat.mod_lt m (by decide : 0 < 10))
      (Nat.mod_lt n (by decide : 0 < 10))).1 (List.singleton_inj.1 hlast)
    omega

theorem fixed_lt_fixed (hm : m < 10 ^ width) (hn : n < 10 ^ width) :
    fixed width m < fixed width n ↔ m < n := by
  induction width generalizing m n with
  | zero => simp only [fixed]; simp; omega
  | succ width ih =>
    have hdigit := digitChar_lt_digitChar (Nat.mod_lt m (by decide : 0 < 10))
      (Nat.mod_lt n (by decide : 0 < 10))
    have hm' : m / 10 < 10 ^ width := by omega
    have hn' : n / 10 < 10 ^ width := by omega
    rw [fixed, fixed, append_lt_append (by simp), ih hm' hn', fixed_inj hm' hn', List.cons_lt_cons_iff,
      hdigit]
    simp
    omega

/-- Numbers of one width compare like the texts they begin. -/
theorem fixed_append_lt (hm : m < 10 ^ width) (hn : n < 10 ^ width) :
    fixed width m ++ p < fixed width n ++ q ↔ m < n ∨ m = n ∧ p < q := by
  rw [append_lt_append (by simp), fixed_lt_fixed hm hn, fixed_inj hm hn]

theorem fixed_add (v w n : Nat) : fixed (v + w) n = fixed v (n / 10 ^ w) ++ fixed w n := by
  induction w generalizing n with
  | zero => simp [fixed]
  | succ w ih =>
    rw [← Nat.add_assoc, fixed, ih, fixed, List.append_assoc, Nat.div_div_eq_div_mul, pow_succ']

theorem fixed_mod (w n : Nat) : fixed w (n % 10 ^ w) = fixed w n := by
  induction w generalizing n with
  | zero => rfl
  | succ w ih =>
    have hdiv : n % 10 ^ (w + 1) / 10 = n / 10 % 10 ^ w := by
      rw [pow_succ', Nat.mod_mul_right_div_self]
    have hmod : n % 10 ^ (w + 1) % 10 = n % 10 := Nat.mod_mod_of_dvd _ (Dvd.intro_left (10 ^ w) rfl)
    rw [fixed, fixed, hdiv, hmod, ih]

/-- The digits of a number in two pieces. -/
theorem fixed_split (v w n : Nat) : fixed (v + w) n = fixed v (n / 10 ^ w) ++ fixed w (n % 10 ^ w) := by
  rw [fixed_mod, fixed_add]

end Text

namespace Instant

open Text

/-- The year, the month and so on down to the nanosecond. -/
def fields (t : Instant) : List Nat := [t.year, t.month, t.day, t.hour, t.minute, t.second, t.nano]

theorem fields_injective : Function.Injective fields := by
  intro t u h
  obtain ⟨year, month, day, hour, minute, second, nano⟩ := t
  obtain ⟨year', month', day', hour', minute', second', nano'⟩ := u
  simpa [fields, Fin.ext_iff] using h

/-- Instants in the order of the calendar and the clock. -/
instance : LinearOrder Instant := LinearOrder.lift' fields fields_injective

theorem lt_iff {t u : Instant} : t < u ↔ t.fields < u.fields := Iff.rfl

/-- The zone that an instant is written with. -/
def zone : List Char := "+00:00".toList

/-- What is written of a fraction from some group of three digits on: the groups up to the last that
is not zero, then the zone. -/
def tailFrom : List Nat → List Char
  | [] => zone
  | g :: rest => if ∀ x ∈ g :: rest, x = 0 then zone else fixed 3 g ++ tailFrom rest

theorem tailFrom_of_zeros {groups : List Nat} (h : ∀ x ∈ groups, x = 0) : tailFrom groups = zone := by
  cases groups with
  | nil => rfl
  | cons g rest => exact if_pos h

theorem tailFrom_of_not_zeros {g : Nat} {rest : List Nat} (h : ¬∀ x ∈ g :: rest, x = 0) :
    tailFrom (g :: rest) = fixed 3 g ++ tailFrom rest := if_neg h

/-- No groups come before zeros. -/
theorem not_lt_of_zeros {groups others : List Nat} (hlength : groups.length = others.length)
    (h : ∀ x ∈ others, x = 0) : ¬groups < others := by
  induction others generalizing groups with
  | nil =>
    obtain rfl := List.length_eq_zero_iff.1 hlength
    exact List.lt_irrefl _
  | cons g' rest' ih =>
    obtain ⟨g, rest, rfl⟩ := List.exists_cons_of_length_eq_add_one hlength
    obtain ⟨rfl, hrest⟩ := List.forall_mem_cons.1 h
    rw [List.cons_lt_cons_iff]
    rintro (hlt | ⟨-, hlt⟩)
    · exact Nat.not_lt_zero _ hlt
    · exact ih (Nat.succ.inj hlength) hrest hlt

/-- The zone comes before any digit. -/
theorem zone_lt_fixed (n : Nat) (rest : List Char) : zone < fixed 3 n ++ rest := by
  have table : ∀ k : Fin 10, '+' < Nat.digitChar k := by decide
  exact List.cons_lt_cons_iff.2 (.inl (table ⟨n / 10 / 10 % 10, Nat.mod_lt _ (by decide)⟩))

/-- **The groups of a fraction compare like what is written of them.** -/
theorem tailFrom_lt {groups others : List Nat} (hlength : groups.length = others.length)
    (hgroups : ∀ x ∈ groups, x < 1000) (hothers : ∀ x ∈ others, x < 1000) (h : groups < others) :
    tailFrom groups < tailFrom others := by
  induction groups generalizing others with
  | nil =>
    obtain rfl := List.length_eq_zero_iff.1 hlength.symm
    exact absurd h (List.lt_irrefl _)
  | cons g rest ih =>
    obtain ⟨g', rest', rfl⟩ := List.exists_cons_of_length_eq_add_one hlength.symm
    obtain ⟨hg, hrest⟩ := List.forall_mem_cons.1 hgroups
    obtain ⟨hg', hrest'⟩ := List.forall_mem_cons.1 hothers
    rw [tailFrom_of_not_zeros fun hzeros => not_lt_of_zeros hlength hzeros h]
    by_cases hzeros : ∀ x ∈ g :: rest, x = 0
    · -- nothing is written of zeros
      rw [tailFrom_of_zeros hzeros]
      exact zone_lt_fixed _ _
    · rw [tailFrom_of_not_zeros hzeros, fixed_append_lt hg hg']
      exact (List.cons_lt_cons_iff.1 h).imp_right fun ⟨heq, hlt⟩ =>
        ⟨heq, ih (Nat.succ.inj hlength) hrest hrest' hlt⟩

/-- The nanoseconds of a second, in groups of three digits. -/
def groups (nano : Nat) : List Nat := [nano / 1000000, nano / 1000 % 1000, nano % 1000]

/-- The fraction is what is written of its groups, unless it is zero. -/
theorem fraction_append_zone (t : Instant) :
    t.fraction ++ zone = if t.nano.val = 0 then zone else '.' :: tailFrom (groups t.nano) := by
  unfold fraction groups
  dsimp only
  by_cases hzero : t.nano.val = 0
  · rw [if_pos hzero, if_pos hzero, List.nil_append]
  · rw [if_neg hzero, if_neg hzero]
    by_cases hmillis : t.nano.val % 1000000 = 0
    · have htail : tailFrom [t.nano / 1000 % 1000, t.nano % 1000] = zone :=
        tailFrom_of_zeros (by simp; omega)
      rw [if_pos hmillis, tailFrom_of_not_zeros (by simp; omega), htail]
      rfl
    · have hsix : fixed 6 (t.nano / 1000) = fixed 3 (t.nano / 1000000) ++ fixed 3 (t.nano / 1000 % 1000) := by
        have hdiv : t.nano.val / 1000 / 1000 = t.nano / 1000000 := by omega
        rw [← hdiv]
        exact fixed_split 3 3 _
      rw [if_neg hmillis, tailFrom_of_not_zeros (by simp; omega)]
      by_cases hmicros : t.nano.val % 1000 = 0
      · have htail : tailFrom [t.nano % 1000] = zone := tailFrom_of_zeros (by simp; omega)
        rw [if_pos hmicros, hsix, tailFrom_of_not_zeros (by simp; omega), htail]
        simp
      · have hnine : fixed 9 t.nano = fixed 6 (t.nano / 1000) ++ fixed 3 (t.nano % 1000) :=
          fixed_split 6 3 _
        rw [if_neg hmicros, hnine, hsix, tailFrom_of_not_zeros (by simp; omega),
          tailFrom_of_not_zeros (by simp; omega)]
        simp [tailFrom]

theorem groups_lt {m n : Nat} (h : m < n) : groups m < groups n := by
  simp only [groups, List.cons_lt_cons_iff]
  omega

/-- A lesser fraction is written as a lesser text. -/
theorem fraction_lt {t u : Instant} (h : t.nano < u.nano) : t.fraction ++ zone < u.fraction ++ zone := by
  have hlt : t.nano.val < u.nano.val := h
  rw [fraction_append_zone, fraction_append_zone, if_neg (show u.nano.val ≠ 0 by omega)]
  by_cases hzero : t.nano.val = 0
  · -- a plus comes before a point
    rw [if_pos hzero]
    exact List.cons_lt_cons_iff.2 (.inl (by decide))
  · rw [if_neg hzero, List.cons_lt_cons_self]
    have hgroups : ∀ n : Fin 1000000000, ∀ x ∈ groups n, x < 1000 := by
      intro n
      simp only [groups, List.forall_mem_cons, List.not_mem_nil, false_imp_iff, implies_true, and_true]
      omega
    exact tailFrom_lt rfl (hgroups _) (hgroups _) (groups_lt hlt)

/-- An instant as text, with all that follows a field behind it. -/
theorem toList_rfc3339 (t : Instant) : t.rfc3339.toList =
    fixed 4 t.year ++ '-' :: (fixed 2 t.month ++ '-' :: (fixed 2 t.day ++ 'T' :: (fixed 2 t.hour ++
      ':' :: (fixed 2 t.minute ++ ':' :: (fixed 2 t.second ++ (t.fraction ++ zone)))))) := by
  simp [rfc3339, seconds, zone]

/-- **Texts of instants are ordered as the instants are.** -/
theorem strictMono_rfc3339 : StrictMono rfc3339 := by
  intro t u h
  have hyear : ∀ v : Instant, v.year.val < 10 ^ 4 := fun v => v.year.isLt
  have hmonth : ∀ v : Instant, v.month.val < 10 ^ 2 := fun v => by omega
  have hday : ∀ v : Instant, v.day.val < 10 ^ 2 := fun v => by omega
  have hhour : ∀ v : Instant, v.hour.val < 10 ^ 2 := fun v => by omega
  have hminute : ∀ v : Instant, v.minute.val < 10 ^ 2 := fun v => by omega
  have hsecond : ∀ v : Instant, v.second.val < 10 ^ 2 := fun v => by omega
  have hend : t.nano.val < u.nano ∨ t.nano.val = u.nano ∧ ([] : List Nat) < [] →
      t.fraction ++ zone < u.fraction ++ zone := by
    rintro (hlt | ⟨-, hnil⟩)
    · exact fraction_lt hlt
    · exact absurd hnil (List.lt_irrefl _)
  rw [lt_iff, fields, fields] at h
  simp only [List.cons_lt_cons_iff] at h
  simp only [String.lt_iff_toList_lt, toList_rfc3339, List.cons_lt_cons_self,
    fixed_append_lt (hyear t) (hyear u), fixed_append_lt (hmonth t) (hmonth u),
    fixed_append_lt (hday t) (hday u), fixed_append_lt (hhour t) (hhour u),
    fixed_append_lt (hminute t) (hminute u), fixed_append_lt (hsecond t) (hsecond u)]
  -- from the year on, each field decides unless it is the same
  have hnext : ∀ {a b c d : Prop}, (c → d) → a ∨ b ∧ c → a ∨ b ∧ d := fun himp =>
    Or.imp_right (And.imp_right himp)
  exact hnext (hnext (hnext (hnext (hnext (hnext hend))))) h

end Instant

end Provision
