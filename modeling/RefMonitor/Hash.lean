import RefMonitor.Kernel

/-!
# `reference_hash.c`: salting and hashing a password

The salted text is built in a fresh `kmalloc` buffer: `strncpy` puts the plaintext there
without a terminator and `strncat` looks for the first zero byte to append the salt. What
is hashed is the resulting C string. The digest is printed as 128 hexadecimal digits.

Results:
1. `strlen_hashPlaintext`: a digest is a string of 128 digits.
2. `hashInto_eq`: hashing into a buffer, even into the one that holds the plaintext.
3. `cstr_saltText_eq`: the salted text, whatever the fresh buffer holds.
4. `checkPwd_eq_zero`: a password is accepted exactly when its digest is the stored one.
-/

namespace RefMonitor
open CString

def saltText (env : Env) (plaintext : List UInt8) : List UInt8 :=
  let fresh := env.kmalloc (strlen plaintext + saltLength + 1)
  strncat (strncpy fresh plaintext (strlen plaintext)) env.salt saltLength

/-- One digit of `%02x`. -/
def hexDigit (n : Nat) : UInt8 :=
  if n < 10 then UInt8.ofNat (48 + n) else UInt8.ofNat (87 + n)

def hexByte (b : UInt8) : List UInt8 := [hexDigit (b.toNat / 16), hexDigit (b.toNat % 16)]

/-- `hash_plaintext`: the digest as a zeroed buffer with the digits printed into it, or the
error of the crypto API. -/
def hashPlaintext (env : Env) (plaintext : List UInt8) : Option (List UInt8) :=
  match env.sha512 (cstr (saltText env plaintext)) with
  | none => none
  | some hash => some (hash.toList.flatMap hexByte ++ [0])

/-- The loop `sprintf(&ciphertext[i * 2], "%02x", hash_sha512[i])`; each print ends with a NUL. -/
def printDigits (ciphertext : List UInt8) : Nat → List UInt8 → List UInt8
  | _, [] => ciphertext
  | i, b :: hash => printDigits (writeAt ciphertext (i * 2) (hexByte b ++ [0])) (i + 1) hash

/-- `hash_plaintext(salt, ciphertext, plaintext)` with the buffer it writes to. The plaintext is
read before anything is written, so the two may be one buffer. -/
def hashInto (env : Env) (ciphertext plaintext : List UInt8) : Option (List UInt8) :=
  match env.sha512 (cstr (saltText env plaintext)) with
  | none => none
  | some hash => some (printDigits (memsetZero ciphertext 0 digestSize) 0 hash.toList)

/-- `check_pwd`: zero when the password is accepted. -/
def checkPwd (env : Env) (s : State) (tryPassword : List UInt8) : Int :=
  match hashPlaintext env tryPassword with
  | none => -1
  | some tmp => strncmp digestSize tmp s.pwd

/-- The salted hash of the password is the stored digest. -/
def HashMatches (env : Env) (s : State) (password : List UInt8) : Prop :=
  ∃ digest, hashPlaintext env password = some digest ∧ cstr digest = cstr s.pwd

theorem hexDigit_ne_zero {n : Nat} (h : n < 16) : hexDigit n ≠ 0 := by
  interval_cases n <;> decide

theorem zero_notMem_hexByte (b : UInt8) : (0 : UInt8) ∉ hexByte b := by
  intro h
  have hb : b.toNat < 256 := b.toNat_lt
  simp only [hexByte, List.mem_cons, List.not_mem_nil, or_false] at h
  rcases h with h | h
  · exact hexDigit_ne_zero (by omega) h.symm
  · exact hexDigit_ne_zero (by omega) h.symm

theorem length_flatMap_hexByte (l : List UInt8) : (l.flatMap hexByte).length = 2 * l.length := by
  induction l with
  | nil => rfl
  | cons b l ih => simp [hexByte, ih]; omega

theorem cstr_hash {hash : Vector UInt8 64} :
    cstr (hash.toList.flatMap hexByte ++ [0]) = hash.toList.flatMap hexByte := by
  apply cstr_append_zero
  intro h
  obtain ⟨b, _, hb⟩ := List.mem_flatMap.mp h
  exact zero_notMem_hexByte b hb

theorem strlen_hashPlaintext {env : Env} {text digest : List UInt8}
    (h : hashPlaintext env text = some digest) : strlen digest = 128 := by
  unfold hashPlaintext at h
  split at h
  · exact absurd h (by simp)
  · next hash _ =>
    obtain rfl := Option.some.inj h
    rw [strlen, cstr_hash, length_flatMap_hexByte]
    simp

theorem length_hexByte (b : UInt8) : (hexByte b).length = 2 := rfl

theorem hexDigit_inj : ∀ m n : Fin 16, hexDigit m = hexDigit n → m = n := by decide

theorem hexByte_inj {b b' : UInt8} (h : hexByte b = hexByte b') : b = b' := by
  have hb : b.toNat < 256 := b.toNat_lt
  have hb' : b'.toNat < 256 := b'.toNat_lt
  obtain ⟨hhigh, hlow⟩ := List.cons.inj h
  have hhigh' := congrArg Fin.val (hexDigit_inj ⟨b.toNat / 16, by omega⟩ ⟨b'.toNat / 16, by omega⟩
    hhigh)
  have hlow' := congrArg Fin.val (hexDigit_inj ⟨b.toNat % 16, by omega⟩ ⟨b'.toNat % 16, by omega⟩
    (List.cons.inj hlow).1)
  dsimp only at hhigh' hlow'
  exact UInt8.toNat_inj.mp (by omega)

/-- The printed digits determine the digest. -/
theorem flatMap_hexByte_inj {l l' : List UInt8} (h : l.flatMap hexByte = l'.flatMap hexByte) :
    l = l' := by
  induction l generalizing l' with
  | nil =>
    cases l' with
    | nil => rfl
    | cons b' l' => exact absurd h (by simp [hexByte])
  | cons b l ih =>
    cases l' with
    | nil => exact absurd h (by simp [hexByte])
    | cons b' l' =>
      rw [List.flatMap_cons, List.flatMap_cons] at h
      obtain ⟨hbyte, hrest⟩ := List.append_inj h rfl
      rw [hexByte_inj hbyte, ih hrest]

/-- The digits are printed one behind the other; the NUL of one print is overwritten by the
next. -/
theorem printDigits_padded {size : Nat} {hash : List UInt8} :
    ∀ {i : Nat} {done : List UInt8}, done.length = i * 2 → done.length + 2 * hash.length < size →
      printDigits (padded size done) i hash = padded size (done ++ hash.flatMap hexByte) := by
  induction hash with
  | nil =>
    intro i done _ _
    rw [printDigits, List.flatMap_nil, List.append_nil]
  | cons b hash ih =>
    intro i done hi hsize
    rw [List.length_cons] at hsize
    have hfit : done.length + (hexByte b).length < size := by
      rw [length_hexByte]
      omega
    have hlen : (done ++ hexByte b).length = (i + 1) * 2 := by
      rw [List.length_append, length_hexByte, hi]
      omega
    rw [printDigits, ← hi, writeAt_padded_end hfit, ih hlen (by rw [hlen]; omega),
      List.flatMap_cons, List.append_assoc]

/-- What is printed does not depend on what the buffer held. -/
theorem hashInto_eq {env : Env} {ciphertext plaintext : List UInt8}
    (hlen : ciphertext.length = digestSize) :
    hashInto env ciphertext plaintext = hashPlaintext env plaintext := by
  have hclear : memsetZero ciphertext 0 digestSize = padded digestSize [] := by
    rw [memsetZero, writeAt, padded_nil, List.take_zero, List.nil_append, List.length_replicate,
      Nat.zero_add, List.drop_eq_nil_of_le (Nat.le_of_eq hlen), List.append_nil]
  unfold hashInto hashPlaintext
  cases env.sha512 (cstr (saltText env plaintext)) with
  | none => rfl
  | some hash =>
    have hbytes : (hash.toList.flatMap hexByte).length = 128 := by
      rw [length_flatMap_hexByte, Vector.length_toList]
    have hfit : ([] : List UInt8).length + 2 * hash.toList.length < digestSize := by
      rw [Vector.length_toList]
      decide
    dsimp only
    rw [hclear, printDigits_padded rfl hfit, List.nil_append, padded, hbytes]
    rfl

/-- The text that is hashed: between the plaintext and the salt stands what the fresh buffer held,
from the end of the plaintext to the first zero byte. -/
theorem cstr_saltText_eq (env : Env) (plaintext : List UInt8) :
    cstr (saltText env plaintext) = cstr plaintext ++
      cstr ((env.kmalloc (strlen plaintext + saltLength + 1)).drop (strlen plaintext)) ++
      (cstr env.salt).take saltLength := by
  rw [saltText, cstr_strncat, cstr_strncpy_strlen]

/-- A password is accepted exactly when its digest is the stored one. -/
theorem checkPwd_eq_zero {env : Env} {s : State} {password : List UInt8} :
    checkPwd env s password = 0 ↔ HashMatches env s password := by
  unfold checkPwd HashMatches
  cases hd : hashPlaintext env password with
  | none => simp
  | some digest =>
    have hlen := strlen_hashPlaintext hd
    rw [strlen] at hlen
    simp only [Option.some.injEq, exists_eq_left', strncmp_eq_zero, digestSize, sha512Length]
    constructor
    · intro h
      rw [List.take_of_length_le (by omega)] at h
      -- the stored string has 128 bytes as well, so the bound does not cut it
      have hl := congrArg List.length h
      rw [hlen, List.length_take] at hl
      rw [List.take_of_length_le (by omega)] at h
      exact h
    · intro h
      rw [h]

end RefMonitor
