import Mathlib.Algebra.BigOperators.Group.List.Basic
import Mathlib.Data.List.Prime
import Mathlib.NumberTheory.LucasPrimality
import Mathlib.Tactic.NormNum.Prime
import ShardLedger.Curve.Basic
import ShardLedger.Proofs.Curve.Modular

/-!
# The field and the order of the curve are prime

A large number is prime when some base has the full multiplicative order modulo it.
Certificates list such bases together with the prime factors of that order; the factors
are small, or certified by an earlier entry.
-/

namespace ShardLedger

/-- What shows that a number is prime. -/
structure PrimeCertificate where
  number : Nat
  /-- A base whose powers are all the residues that do not vanish. -/
  base : Nat
  /-- The prime factors of the number below, with their exponents. -/
  factors : List (Nat × Nat)

namespace PrimeCertificate

/-- The product of the factors. -/
def order (c : PrimeCertificate) : Nat :=
  (c.factors.map fun factor => factor.1 ^ factor.2).prod

/-- Whether the base has full order, and all factors are known to be prime. -/
def isValid (known : List Nat) (c : PrimeCertificate) : Bool :=
  1 < c.number && c.number == c.order + 1 && Modular.power c.number c.base c.order == 1 &&
    c.factors.all fun factor =>
      known.contains factor.1 && Modular.power c.number c.base (c.order / factor.1) != 1

/-- Whether certificates are valid in order, each with the numbers of those before it. -/
def areValid (known : List Nat) : List PrimeCertificate → Bool
  | [] => true
  | c :: rest => c.isValid known && areValid (c.number :: known) rest

theorem exists_factor_of_dvd_order {c : PrimeCertificate} {q : Nat} (hq : q.Prime)
    (hfactors : ∀ factor ∈ c.factors, factor.1.Prime) (hdvd : q ∣ c.order) :
    ∃ factor ∈ c.factors, factor.1 = q := by
  obtain ⟨power, hpower, hdvd⟩ := (Prime.dvd_prod_iff hq.prime).mp hdvd
  obtain ⟨factor, hmem, rfl⟩ := List.mem_map.mp hpower
  have hsame : q = factor.1 :=
    (Nat.prime_dvd_prime_iff_eq hq (hfactors factor hmem)).mp (hq.dvd_of_dvd_pow hdvd)
  exact ⟨factor, hmem, hsame.symm⟩

theorem pow_eq_one_iff {m : Nat} (hm : 1 < m) (base exponent : Nat) :
    (base : ZMod m) ^ exponent = 1 ↔ Modular.power m base exponent = 1 := by
  rw [Modular.power_eq, ← Nat.cast_pow, ← Nat.cast_one, ZMod.natCast_eq_natCast_iff',
    Nat.mod_eq_of_lt hm]

theorem prime_of_isValid {known : List Nat} {c : PrimeCertificate}
    (hknown : ∀ q ∈ known, q.Prime) (hvalid : c.isValid known = true) : c.number.Prime := by
  simp only [isValid, Bool.and_eq_true, decide_eq_true_eq, beq_iff_eq, List.all_eq_true,
    bne_iff_ne, List.contains_iff_mem] at hvalid
  obtain ⟨⟨⟨hone, hnumber⟩, hfull⟩, hfactors⟩ := hvalid
  have hprimes : ∀ factor ∈ c.factors, factor.1.Prime :=
    fun factor hmem => hknown _ (hfactors factor hmem).1
  have hsub : c.number - 1 = c.order := by omega
  refine lucas_primality c.number c.base ?_ ?_
  · rw [hsub, pow_eq_one_iff hone]
    exact hfull
  · intro q hq hdvd
    rw [hsub] at hdvd ⊢
    obtain ⟨factor, hmem, rfl⟩ := exists_factor_of_dvd_order hq hprimes hdvd
    rw [ne_eq, pow_eq_one_iff hone]
    exact (hfactors factor hmem).2

theorem prime_of_areValid {known : List Nat} {certificates : List PrimeCertificate}
    (hknown : ∀ q ∈ known, q.Prime) (hvalid : areValid known certificates = true)
    {c : PrimeCertificate} (hmem : c ∈ certificates) : c.number.Prime := by
  induction certificates generalizing known with
  | nil => cases hmem
  | cons first rest ih =>
      rw [areValid, Bool.and_eq_true] at hvalid
      have hfirst := prime_of_isValid hknown hvalid.1
      rcases List.mem_cons.mp hmem with rfl | hmem
      · exact hfirst
      · exact ih (List.forall_mem_cons.mpr ⟨hfirst, hknown⟩) hvalid.2 hmem

end PrimeCertificate

namespace Secp256k1

/-- Primes below a million that divide the orders of the certificates. -/
def smallPrimes : List Nat :=
  [2, 3, 5, 7, 11, 17, 29, 31, 41, 53, 59, 97, 109, 149, 293, 461, 631, 797, 971, 1373, 1627,
    1871, 2011, 2621, 2657, 4051, 4423, 5323, 7723, 9349, 13441, 16699, 20113, 24809, 28181,
    41201, 85831, 96557, 120233, 305873]

theorem prime_of_mem_smallPrimes : ∀ q ∈ smallPrimes, q.Prime := by
  simp only [smallPrimes, List.forall_mem_cons, List.not_mem_nil, false_implies, implies_true,
    and_true]
  norm_num

/-- Certificates that lead up to the size of the field. -/
def fieldCertificates : List PrimeCertificate := [
  ⟨13331831, 13, [(2, 1), (5, 1), (971, 1), (1373, 1)]⟩,
  ⟨173378833005251801, 6, [(2, 3), (5, 2), (2621, 1), (24809, 1), (13331831, 1)]⟩,
  ⟨22149492674086928081353, 5, [(2, 3), (3, 1), (5323, 1), (173378833005251801, 1)]⟩,
  ⟨132896956044521568488119, 6, [(2, 1), (3, 1), (22149492674086928081353, 1)]⟩,
  ⟨1206781, 10, [(2, 2), (3, 1), (5, 1), (20113, 1)]⟩,
  ⟨7240687, 3, [(2, 1), (3, 1), (1206781, 1)]⟩,
  ⟨107590001, 3, [(2, 4), (5, 4), (7, 1), (29, 1), (53, 1)]⟩,
  ⟨255515944373312847190720520512484175977, 3, [(2, 3), (7, 2), (11, 1), (1627, 1), (2657, 1),
    (4423, 1), (41201, 1), (96557, 1), (7240687, 1), (107590001, 1)]⟩,
  ⟨205115282021455665897114700593932402728804164701536103180137503955397371, 10, [(2, 1), (3, 1),
    (5, 1), (29, 2), (31, 1), (7723, 1), (132896956044521568488119, 1),
    (255515944373312847190720520512484175977, 1)]⟩,
  ⟨secp256k1.p, 3, [(2, 1), (3, 1), (7, 1), (13441, 1),
    (205115282021455665897114700593932402728804164701536103180137503955397371, 1)]⟩]

/-- Certificates that lead up to the order of the base point. -/
def orderCertificates : List PrimeCertificate := [
  ⟨4681609, 23, [(2, 3), (3, 1), (97, 1), (2011, 1)]⟩,
  ⟨107361793816595537, 3, [(2, 4), (16699, 1), (85831, 1), (4681609, 1)]⟩,
  ⟨44706919, 6, [(2, 1), (3, 1), (797, 1), (9349, 1)]⟩,
  ⟨174723607534414371449, 3, [(2, 3), (17, 1), (59, 1), (4051, 1), (120233, 1), (44706919, 1)]⟩,
  ⟨545358713, 5, [(2, 3), (41, 1), (59, 1), (28181, 1)]⟩,
  ⟨1627771, 3, [(2, 1), (3, 1), (5, 1), (29, 1), (1871, 1)]⟩,
  ⟨297159362677, 2, [(2, 2), (3, 2), (11, 1), (461, 1), (1627771, 1)]⟩,
  ⟨29047611873442575647497758179, 2, [(2, 1), (293, 1), (305873, 1), (545358713, 1),
    (297159362677, 1)]⟩,
  ⟨341948486974166000522343609283189, 2, [(2, 2), (3, 3), (109, 1),
    (29047611873442575647497758179, 1)]⟩,
  ⟨secp256k1.n, 7, [(2, 6), (3, 1), (149, 1), (631, 1), (107361793816595537, 1),
    (174723607534414371449, 1), (341948486974166000522343609283189, 1)]⟩]

theorem prime_p : secp256k1.p.Prime := by
  have hvalid : PrimeCertificate.areValid smallPrimes fieldCertificates = true := by
    decide +kernel
  exact PrimeCertificate.prime_of_areValid prime_of_mem_smallPrimes hvalid
    (List.mem_of_getLast? rfl)

theorem prime_n : secp256k1.n.Prime := by
  have hvalid : PrimeCertificate.areValid smallPrimes orderCertificates = true := by
    decide +kernel
  exact PrimeCertificate.prime_of_areValid prime_of_mem_smallPrimes hvalid
    (List.mem_of_getLast? rfl)

end Secp256k1

end ShardLedger
