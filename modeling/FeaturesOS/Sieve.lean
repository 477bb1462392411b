import Mathlib.Data.Nat.Nth
import Mathlib.Data.Nat.PrimeFin

/-!
# The sieve of Eratosthenes

The numbers that the first `k` primes leave over, the smallest of which is the next
prime, and what one filter leaves over of a stream of numbers.
-/

namespace FeaturesOS

namespace Sieve

/-- The `k`-th prime, from 2 on. -/
noncomputable def prime (k : Nat) : Nat := Nat.nth Nat.Prime k

/-- The first `k` primes leave `m` over. -/
def Survives (k m : Nat) : Prop := 2 ≤ m ∧ prime k ≤ m.minFac

noncomputable instance (k : Nat) : DecidablePred (Survives k) :=
  fun _ => inferInstanceAs (Decidable (_ ∧ _))

theorem prime_isPrime (k : Nat) : (prime k).Prime :=
  Nat.nth_mem_of_infinite Nat.infinite_setOfPred_prime k

theorem prime_lt_prime {j k : Nat} : prime j < prime k ↔ j < k :=
  Nat.nth_lt_nth Nat.infinite_setOfPred_prime

/-- No prime lies between one and the next. -/
theorem next_le {k p : Nat} (isPrime : p.Prime) (above : prime k < p) :
    prime (k + 1) ≤ p := by
  obtain ⟨j, rfl⟩ : ∃ j, prime j = p :=
    ⟨_, Nat.nth_count isPrime⟩
  have less := prime_lt_prime.mp above
  exact Nat.nth_monotone Nat.infinite_setOfPred_prime less

theorem survives_zero {m : Nat} : Survives 0 m ↔ 2 ≤ m := by
  refine ⟨And.left, fun large => ⟨large, ?_⟩⟩
  have isPrime := Nat.minFac_prime (show m ≠ 1 by omega)
  obtain ⟨j, isJ⟩ : ∃ j, prime j = m.minFac := ⟨_, Nat.nth_count isPrime⟩
  rw [← isJ]
  exact Nat.nth_monotone Nat.infinite_setOfPred_prime (Nat.zero_le j)

theorem survives_prime (k : Nat) : Survives k (prime k) :=
  ⟨(prime_isPrime k).two_le, (prime_isPrime k).minFac_eq.ge⟩

/-- A filter takes out the multiples of its prime. -/
theorem survives_succ {k m : Nat} :
    Survives (k + 1) m ↔ Survives k m ∧ ¬ prime k ∣ m := by
  have step : prime k < prime (k + 1) := prime_lt_prime.mpr (Nat.lt_succ_self k)
  constructor
  · rintro ⟨large, least⟩
    refine ⟨⟨large, (step.trans_le least).le⟩, fun divides => ?_⟩
    have atMost := Nat.minFac_le_of_dvd (prime_isPrime k).two_le divides
    omega
  · rintro ⟨⟨large, least⟩, remains⟩
    refine ⟨large, next_le (Nat.minFac_prime (by omega)) ?_⟩
    refine lt_of_le_of_ne least fun same => remains ?_
    rw [same]
    exact Nat.minFac_dvd m

theorem infinite_survives (k : Nat) : (Set.ofPred (Survives k)).Infinite := by
  refine Set.infinite_of_injective_forall_mem (f := fun i => prime (k + i))
    ?_ ?_
  · intro i j same
    by_contra different
    rcases Nat.lt_or_gt_of_ne different with less | more
    · exact absurd same (prime_lt_prime.mpr (by omega)).ne
    · exact absurd same (prime_lt_prime.mpr (by omega)).ne'
  · intro i
    refine ⟨(prime_isPrime _).two_le, ?_⟩
    rw [(prime_isPrime _).minFac_eq]
    exact Nat.nth_monotone Nat.infinite_setOfPred_prime (Nat.le_add_right k i)

/-- The first number that is left over is the next prime. -/
theorem first_survivor (k : Nat) : Nat.nth (Survives k) 0 = prime k := by
  have below : ∀ m < prime k, ¬ Survives k m := by
    rintro m less ⟨large, least⟩
    have := Nat.minFac_le (show 0 < m by omega)
    omega
  have none : Nat.count (Survives k) (prime k) = 0 := by
    rw [Nat.count_eq_card_filter_range, Finset.card_eq_zero,
      Finset.filter_eq_empty_iff]
    exact fun m member => below m (Finset.mem_range.mp member)
  rw [← none]
  exact Nat.nth_count (survives_prime k)

/-! ## Streams -/

/-- The `c`-th number that the first `k` primes leave over. -/
noncomputable def value (k c : Nat) : Nat := Nat.nth (Survives k) c

/-- How many of the numbers below `bound` the first `k` primes leave over. -/
noncomputable def passed (k bound : Nat) : Nat := Nat.count (Survives k) bound

theorem survives_value (k c : Nat) : Survives k (value k c) :=
  Nat.nth_mem_of_infinite (infinite_survives k) c

theorem value_zero (k : Nat) : value k 0 = prime k := first_survivor k

theorem value_passed {k m : Nat} (survives : Survives k m) :
    value k (passed k m) = m := Nat.nth_count survives

theorem passed_succ {k m : Nat} (survives : Survives k m) :
    passed k (m + 1) = passed k m + 1 :=
  Nat.count_succ_eq_succ_count_iff.mpr survives

theorem passed_succ_of_not {k m : Nat} (taken : ¬ Survives k m) :
    passed k (m + 1) = passed k m :=
  Nat.count_succ_eq_count_iff.mpr taken

theorem passed_eq_of_none {k low high : Nat} (le : low ≤ high)
    (none : ∀ m, low ≤ m → m < high → ¬ Survives k m) :
    passed k high = passed k low := by
  induction high, le using Nat.le_induction with
  | base => rfl
  | succ high le induction =>
      rw [passed_succ_of_not (none high le (Nat.lt_succ_self high))]
      exact induction fun m above below => none m above (by omega)

/-- Nothing lies between two numbers of the stream. -/
theorem not_survives_between {k c m : Nat} (above : value k c < m)
    (below : m < value k (c + 1)) : ¬ Survives k m := by
  intro survives
  rw [← value_passed survives] at above below
  have first := (Nat.nth_lt_nth (infinite_survives k)).mp above
  have second := (Nat.nth_lt_nth (infinite_survives k)).mp below
  omega

/-- A filter lets nothing pass between two numbers that it gets. -/
theorem passed_between (k c : Nat) :
    passed (k + 1) (value k (c + 1)) = passed (k + 1) (value k c + 1) := by
  refine passed_eq_of_none ?_ fun m above below survives => ?_
  · exact (Nat.nth_lt_nth (infinite_survives k)).mpr (Nat.lt_succ_self c)
  · exact not_survives_between (by omega) below (survives_succ.mp survives).1

/-- The first number of the stream is the prime of the filter. -/
theorem passed_first (k : Nat) : passed (k + 1) (value k 0 + 1) = 0 := by
  rw [value_zero]
  have none : ∀ m, 0 ≤ m → m < prime k + 1 → ¬ Survives (k + 1) m := by
    intro m _ below survives
    obtain ⟨⟨large, least⟩, remains⟩ := survives_succ.mp survives
    have atMost := Nat.minFac_le (show 0 < m by omega)
    have same : prime k = m := by omega
    exact remains (same ▸ Nat.dvd_refl _)
  exact passed_eq_of_none (Nat.zero_le _) none

theorem passed_zero_two : passed 0 2 = 0 := by
  have none : ∀ m, 0 ≤ m → m < 2 → ¬ Survives 0 m := by
    rintro m _ below ⟨large, _⟩
    omega
  exact passed_eq_of_none (Nat.zero_le 2) none

end Sieve

end FeaturesOS
