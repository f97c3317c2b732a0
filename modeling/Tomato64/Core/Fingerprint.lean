import Mathlib.Data.List.Induction
import Mathlib.Data.List.Nodup
import Mathlib.Data.Nat.Bitwise
import Mathlib.Data.Nat.ModEq
import Mathlib.Tactic.Ring

/-!
# Distinct names by fingerprints

A long list of names is shown to have no duplicates by giving every name a
number and checking the numbers against a set of bits.  The fingerprint of a
name that is joined from pieces is computed from those of the pieces, so a
piece that occurs in many names is read only once.
-/

namespace Tomato64.Fingerprint

open List

/-- No number occurs twice or has its bit set in `seen`. -/
def distinctFrom (seen : ℕ) : List ℕ → Bool
  | [] => true
  | code :: codes =>
    !seen.testBit code && distinctFrom (seen ||| 2 ^ code) codes

theorem nodup_of_distinctFrom {seen : ℕ} {codes : List ℕ}
    (hdistinct : distinctFrom seen codes = true) :
    codes.Nodup ∧ ∀ code ∈ codes, seen.testBit code = false := by
  induction codes generalizing seen with
  | nil => simp
  | cons code codes ih =>
    rw [distinctFrom, Bool.and_eq_true, Bool.not_eq_true'] at hdistinct
    obtain ⟨hnodup, hunseen⟩ := ih hdistinct.2
    have hnew : ∀ other ∈ codes, seen.testBit other = false ∧ other ≠ code := by
      intro other hother
      have hbit := hunseen other hother
      rw [Nat.testBit_or, Bool.or_eq_false_iff] at hbit
      refine ⟨hbit.1, ?_⟩
      rintro rfl
      rw [Nat.testBit_two_pow_self] at hbit
      exact absurd hbit.2 (by decide)
    refine ⟨nodup_cons.2 ⟨fun hmem => (hnew code hmem).2 rfl, hnodup⟩, ?_⟩
    rw [forall_mem_cons]
    exact ⟨hdistinct.1, fun other hother => (hnew other hother).1⟩

/-! ## Fingerprints of strings -/

variable (base modulus : ℕ)

/-- Appends a digit to a number and to the weight of what stands before it. -/
def addByte (code : ℕ × ℕ) (byte : UInt8) : ℕ × ℕ :=
  ((code.1 * base + byte.toNat) % modulus, code.2 * base % modulus)

variable (bytes : List UInt8)

/-- The number a string stands for in the given base, and the weight of a digit
before it, both reduced. -/
def digest : ℕ × ℕ :=
  bytes.foldl (addByte base modulus) (0, 1 % modulus)

/-- The digest of two strings in a row. -/
def joinDigest (left right : ℕ × ℕ) : ℕ × ℕ :=
  ((left.1 * right.2 + right.1) % modulus, left.2 * right.2 % modulus)

def ofString (text : String) : ℕ × ℕ :=
  digest base modulus text.toByteArray.data.toList

def ofPieces (pieces : List String) : ℕ × ℕ :=
  pieces.foldl
    (fun code piece => joinDigest modulus code (ofString base modulus piece))
    (0, 1 % modulus)

theorem digest_append_singleton (byte : UInt8) :
    digest base modulus (bytes ++ [byte]) =
      addByte base modulus (digest base modulus bytes) byte := by
  rw [digest, foldl_append]
  rfl

theorem joinDigest_addByte (left right : ℕ × ℕ) (byte : UInt8) :
    joinDigest modulus left (addByte base modulus right byte) =
      addByte base modulus (joinDigest modulus left right) byte := by
  rw [joinDigest, addByte, addByte, joinDigest, Prod.mk.injEq]
  constructor
  swap
  · rw [Nat.mul_mod_mod, Nat.mod_mul_mod, Nat.mul_assoc]
  have hproduct : left.1 * (right.2 * base % modulus) ≡
      left.1 * (right.2 * base) [MOD modulus] :=
    (Nat.mod_modEq _ _).mul_left _
  have hsum : (left.1 * right.2 + right.1) % modulus * base ≡
      (left.1 * right.2 + right.1) * base [MOD modulus] :=
    (Nat.mod_modEq _ _).mul_right _
  calc (left.1 * (right.2 * base % modulus) +
        (right.1 * base + byte.toNat) % modulus) % modulus
      = (left.1 * (right.2 * base) +
          (right.1 * base + byte.toNat)) % modulus :=
        hproduct.add (Nat.mod_modEq _ _)
    _ = ((left.1 * right.2 + right.1) * base + byte.toNat) % modulus := by
        ring_nf
    _ = ((left.1 * right.2 + right.1) % modulus * base +
          byte.toNat) % modulus := (hsum.add_right _).symm

/-- The empty string changes nothing at the end of another one. -/
theorem joinDigest_empty :
    joinDigest modulus (digest base modulus bytes) (0, 1 % modulus) =
      digest base modulus bytes := by
  induction bytes using reverseRecOn with
  | nil => simp [joinDigest, digest]
  | append_singleton bytes byte _ =>
    rw [digest_append_singleton, addByte, joinDigest]
    simp

theorem digest_append (front back : List UInt8) :
    digest base modulus (front ++ back) =
      joinDigest modulus (digest base modulus front)
        (digest base modulus back) := by
  induction back using reverseRecOn with
  | nil =>
    rw [append_nil]
    exact (joinDigest_empty base modulus front).symm
  | append_singleton back byte ih =>
    rw [← append_assoc, digest_append_singleton,
      digest_append_singleton, ih, joinDigest_addByte]

theorem ofString_append (left right : String) :
    ofString base modulus (left ++ right) =
      joinDigest modulus (ofString base modulus left)
        (ofString base modulus right) := by
  rw [ofString, ofString, ofString, ← digest_append, String.toByteArray_append,
    ByteArray.data_append, Array.toList_append]

theorem ofString_join (pieces : List String) :
    ofString base modulus (String.join pieces) =
      ofPieces base modulus pieces := by
  have hfold : ∀ (pieces : List String) (start : String),
      ofString base modulus (pieces.foldl (· ++ ·) start) =
        pieces.foldl (fun code piece =>
          joinDigest modulus code (ofString base modulus piece))
          (ofString base modulus start) := by
    intro pieces
    induction pieces with
    | nil => exact fun _ => rfl
    | cons piece pieces ih =>
      intro start
      rw [foldl_cons, foldl_cons, ih, ofString_append]
  exact hfold pieces ""

/-- Names with different fingerprints are different. -/
theorem nodup_join_of_distinctFrom {pieces : List (List String)}
    (hdistinct : distinctFrom 0
      (pieces.map fun name => (ofPieces base modulus name).1) = true) :
    (pieces.map String.join).Nodup := by
  refine Nodup.of_map (fun name => (ofString base modulus name).1) ?_
  rw [map_map]
  have hcodes := (nodup_of_distinctFrom hdistinct).1
  simpa only [Function.comp_def, ofString_join] using hcodes

end Tomato64.Fingerprint
