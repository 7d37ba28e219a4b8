import Mathlib.Algebra.Group.Nat.Defs
import Mathlib.Data.List.Basic
import Workflow.Text.Fingerprint

/-!
What fingerprints keep apart.

The factor of a round is odd and so has an inverse modulo 2^64: a round loses nothing, neither of the digest before
it nor of the byte it mixes in. Digests that differ stay different after the same bytes, so a run of bytes with one
byte changed has another digest however long it is. Sixteen hexadecimal digits hold a whole digest, so what is true
of digests is true of fingerprints.
-/

set_option autoImplicit false

namespace Workflow.Text

/-! ## Rounds -/

/-- The inverse of the factor of a round, modulo 2^64. -/
def fingerprintInverse : UInt64 := 0xce965057aff6957b

theorem mul_fingerprintPrime_injective : Function.Injective fun word : UInt64 => word * fingerprintPrime := by
  have unit : fingerprintPrime * fingerprintInverse = 1 := by decide
  have undone : Function.LeftInverse (fun word => word * fingerprintInverse)
      fun word => word * fingerprintPrime := fun word => by
    change word * fingerprintPrime * fingerprintInverse = word
    rw [UInt64.mul_assoc, unit, UInt64.mul_one]
  exact undone.injective

@[simp] theorem fingerprintRound_left_inj {hash hash' : UInt64} (byte : UInt8) :
    fingerprintRound hash byte = fingerprintRound hash' byte ↔ hash = hash' :=
  mul_fingerprintPrime_injective.eq_iff.trans (UInt64.xor_left_inj _)

@[simp] theorem fingerprintRound_right_inj (hash : UInt64) {byte byte' : UInt8} :
    fingerprintRound hash byte = fingerprintRound hash byte' ↔ byte = byte' :=
  mul_fingerprintPrime_injective.eq_iff.trans ((UInt64.xor_right_inj _).trans UInt8.toUInt64_inj)

/-! ## Runs of bytes -/

/-- Whatever bytes follow, digests that differ stay different. -/
theorem fingerprintBytes_left_inj {hash hash' : UInt64} (bytes : List UInt8) :
    fingerprintBytes hash bytes = fingerprintBytes hash' bytes ↔ hash = hash' := by
  induction bytes generalizing hash hash' with
  | nil => exact Iff.rfl
  | cons byte rest ih => exact ih.trans (fingerprintRound_left_inj byte)

/-- Putting another byte in the place of one changes the digest. -/
theorem fingerprintBytes_set {hash : UInt64} {bytes : List UInt8} {i : Nat} (inside : i < bytes.length)
    (byte : UInt8) : fingerprintBytes hash (bytes.set i byte) = fingerprintBytes hash bytes ↔ byte = bytes[i] := by
  induction bytes generalizing hash i with
  | nil => exact absurd inside (Nat.not_lt_zero i)
  | cons first rest ih =>
    cases i with
    | zero => exact (fingerprintBytes_left_inj rest).trans (fingerprintRound_right_inj hash)
    | succ i => exact ih (Nat.lt_of_succ_lt_succ inside)

/-- A list that differs from another of its length in one place only is that other with one member put in the
place of another. -/
theorem exists_eq_set_of_existsUnique_ne {α : Type} {l l' : List α} (long : l.length = l'.length)
    (once : ∃! i : Nat, l[i]? ≠ l'[i]?) :
    ∃ i, ∃ inside : i < l.length, ∃ a, a ≠ l[i] ∧ l' = l.set i a := by
  obtain ⟨i, differs, only⟩ := once
  have inside : i < l.length := by
    by_contra outside
    rw [List.getElem?_eq_none (by omega), List.getElem?_eq_none (by omega)] at differs
    exact differs rfl
  have inside' : i < l'.length := long ▸ inside
  refine ⟨i, inside, l'[i], ?_, ?_⟩
  · rw [List.getElem?_eq_getElem inside, List.getElem?_eq_getElem inside'] at differs
    exact fun same => differs (congrArg some same.symm)
  · apply List.ext_getElem?
    intro j
    rw [List.getElem?_set]
    split
    next here => rw [← here, List.getElem?_eq_getElem inside']
    next other =>
      by_contra ne
      exact other (only j fun same => ne same.symm).symm

/-! ## Hexadecimal digits -/

theorem hexDigit_inj {m n : Nat} (hm : m < 16) (hn : n < 16) : hexDigit m = hexDigit n ↔ m = n := by
  have apart : ∀ m n : Fin 16, hexDigit m = hexDigit n → m = n := by decide
  exact ⟨fun same => congrArg Fin.val (apart ⟨m, hm⟩ ⟨n, hn⟩ same), congrArg hexDigit⟩

/-- A number that fits the width can be told from its digits. -/
theorem hexDigits_inj {width m n : Nat} (hm : m < 16 ^ width) (hn : n < 16 ^ width) :
    hexDigits width m = hexDigits width n ↔ m = n := by
  refine ⟨fun same => ?_, congrArg (hexDigits width)⟩
  induction width generalizing m n with
  | zero => rw [Nat.pow_zero, Nat.lt_one_iff] at hm hn; rw [hm, hn]
  | succ width ih =>
    obtain ⟨front, last⟩ := List.append_inj' same rfl
    have fits {k : Nat} (hk : k < 16 ^ (width + 1)) : k / 16 < 16 ^ width :=
      Nat.div_lt_of_lt_mul (by rwa [Nat.pow_succ'] at hk)
    have high : m / 16 = n / 16 := ih (fits hm) (fits hn) front
    have low : m % 16 = n % 16 :=
      (hexDigit_inj (Nat.mod_lt m (by decide)) (Nat.mod_lt n (by decide))).mp (List.singleton_inj.mp last)
    rw [← Nat.div_add_mod m 16, ← Nat.div_add_mod n 16, high, low]

theorem isDigit_of_mem_hexDigits {width n : Nat} {c : Char} (h : c ∈ hexDigits width n) :
    c ∈ "0123456789abcdef".toList := by
  induction width generalizing n with
  | zero => cases h
  | succ width ih =>
    rcases List.mem_append.mp h with front | last
    · exact ih front
    · have digits : ∀ d : Fin 16, hexDigit d ∈ "0123456789abcdef".toList := by decide
      rw [List.mem_singleton.mp last]
      exact digits ⟨n % 16, Nat.mod_lt n (by decide)⟩

/-- Sixteen digits hold a word. -/
theorem hexText_toNat_inj {word word' : UInt64} :
    hexText 16 word.toNat = hexText 16 word'.toNat ↔ word = word' :=
  String.ofList_inj.trans ((hexDigits_inj word.toNat_lt word'.toNat_lt).trans UInt64.toNat_inj)

/-! ## Fingerprints -/

/-- The UTF-8 encoding of a text. -/
def utf8 (text : String) : List UInt8 :=
  text.toByteArray.data.toList

theorem utf8_append (front back : String) : utf8 (front ++ back) = utf8 front ++ utf8 back := by
  rw [utf8, String.toByteArray_append, ByteArray.toList_data_append]
  rfl

theorem fingerprint_inj {text text' : String} : fingerprint text = fingerprint text' ↔
    fingerprintBytes fingerprintBasis (utf8 text) = fingerprintBytes fingerprintBasis (utf8 text') :=
  hexText_toNat_inj

theorem fingerprint_append_inj (text text' suffix : String) :
    fingerprint (text ++ suffix) = fingerprint (text' ++ suffix) ↔ fingerprint text = fingerprint text' := by
  simp only [fingerprint_inj, utf8_append, fingerprintBytes_append, fingerprintBytes_left_inj]

/-- Texts whose encodings have the same length and differ in exactly one byte have different fingerprints;
texts with different fingerprints keep them different whatever is put behind both; and different words are written as
different texts, each of sixteen hexadecimal digits. -/
theorem fingerprint_separates :
    (∀ text text' : String, (utf8 text).length = (utf8 text').length →
        (∃! i : Nat, (utf8 text)[i]? ≠ (utf8 text')[i]?) → fingerprint text ≠ fingerprint text')
      ∧ (∀ text text' suffix : String, fingerprint text ≠ fingerprint text' →
        fingerprint (text ++ suffix) ≠ fingerprint (text' ++ suffix))
      ∧ (∀ word word' : UInt64, word ≠ word' → hexText 16 word.toNat ≠ hexText 16 word'.toNat)
      ∧ ∀ word : UInt64, (hexText 16 word.toNat).length = 16
        ∧ ∀ c ∈ (hexText 16 word.toNat).toList, c ∈ "0123456789abcdef".toList := by
  refine ⟨fun text text' long once => ?_, fun text text' suffix => ?_, fun word word' => ?_, fun word => ⟨?_, ?_⟩⟩
  · obtain ⟨i, inside, byte, changed, set⟩ := exists_eq_set_of_existsUnique_ne long once
    rw [Ne, fingerprint_inj, eq_comm, set, fingerprintBytes_set inside]
    exact changed
  · exact mt (fingerprint_append_inj text text' suffix).mp
  · exact mt hexText_toNat_inj.mp
  · rw [hexText, String.length_ofList, length_hexDigits]
  · rw [hexText, String.toList_ofList]
    exact fun c => isDigit_of_mem_hexDigits

/-- Two letters that share all bytes but one. -/
theorem fingerprint_separates_accents :
    (utf8 "fn café() \x7b\x7d").length = (utf8 "fn cafè() \x7b\x7d").length
      ∧ (∃! i : Nat, (utf8 "fn café() \x7b\x7d")[i]? ≠ (utf8 "fn cafè() \x7b\x7d")[i]?)
      ∧ fingerprint "fn café() \x7b\x7d" ≠ fingerprint "fn cafè() \x7b\x7d"
      ∧ fingerprint ("fn café() \x7b\x7d" ++ "\n") ≠ fingerprint ("fn cafè() \x7b\x7d" ++ "\n")
      ∧ (0 : UInt64) ≠ 1 ∧ hexText 16 (0 : UInt64).toNat ≠ hexText 16 (1 : UInt64).toNat := by
  have long : (utf8 "fn café() \x7b\x7d").length = (utf8 "fn cafè() \x7b\x7d").length := by decide
  have once : ∃! i : Nat, (utf8 "fn café() \x7b\x7d")[i]? ≠ (utf8 "fn cafè() \x7b\x7d")[i]? := by
    refine ⟨7, by decide, fun i differs => ?_⟩
    have within : ∀ i < 13, (utf8 "fn café() \x7b\x7d")[i]? ≠ (utf8 "fn cafè() \x7b\x7d")[i]? → i = 7 := by
      decide
    by_cases inside : i < 13
    · exact within i inside differs
    · have beyond {bytes : List UInt8} (h : bytes.length = 13) : bytes[i]? = none :=
        List.getElem?_eq_none (by omega)
      exact absurd ((beyond (by decide)).trans (beyond (by decide)).symm) differs
  obtain ⟨separates, continues, words, _⟩ := fingerprint_separates
  have apart := separates _ _ long once
  exact ⟨long, once, apart, continues _ _ "\n" apart, by decide, words 0 1 (by decide)⟩

end Workflow.Text
