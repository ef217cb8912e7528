import Mathlib.Data.List.Basic

/-!
# Ciphers that work on a stream

A cipher is given its input in pieces, and what it writes after all of them depends on the whole
input only. Decryption gives back what was encrypted with the same key.
-/

namespace StreamCipher

abbrev Bytes := List UInt8

/-- A cipher with the key made of a pass phrase and a salt. The flag says whether it encrypts. -/
structure Cipher where
  Context : Type
  init : Bool → Bytes → Bytes → Context
  update : Context → Bytes → Bytes × Context
  /-- The call with a size, of which the bytes are taken. -/
  call : Context → Int → Bytes → Option (Bytes × Context)
  final : Context → Option Bytes
  /-- How much more than its input a call may write. -/
  blockMax : Nat
  update_nil : ∀ context, update context [] = ([], context)
  update_append : ∀ context a b, update context (a ++ b) =
    ((update context a).1 ++ (update (update context a).2 b).1, (update (update context a).2 b).2)
  call_size : ∀ context source (size : Nat), size ≤ source.length →
    call context size source = some (update context (source.take size))
  /-- A size that is negative is refused. -/
  call_negative : ∀ context source, ∀ size < 0, call context size source = none
  update_size : ∀ context a, (update context a).1.length ≤ a.length + blockMax
  final_size : ∀ context, ∀ out ∈ final context, out.length ≤ blockMax
  round_trip : ∀ pass salt plain, ∃ out,
    (final (update (init true pass salt) plain).2).map
      ((update (init true pass salt) plain).1 ++ ·) = some out ∧
    (final (update (init false pass salt) out).2).map
      ((update (init false pass salt) out).1 ++ ·) = some plain

namespace Cipher

variable (cipher : Cipher)

/-- What is written for a whole input. -/
def stream (context : cipher.Context) (input : Bytes) : Option Bytes :=
  (cipher.final (cipher.update context input).2).map ((cipher.update context input).1 ++ ·)

def encrypted (pass salt plain : Bytes) : Bytes :=
  (cipher.stream (cipher.init true pass salt) plain).getD []

theorem stream_encrypt (pass salt plain : Bytes) :
    cipher.stream (cipher.init true pass salt) plain = some (cipher.encrypted pass salt plain) := by
  obtain ⟨out, encrypts, -⟩ := cipher.round_trip pass salt plain
  have encrypts : cipher.stream (cipher.init true pass salt) plain = some out := encrypts
  rw [encrypted, encrypts]
  rfl

theorem stream_decrypt (pass salt plain : Bytes) :
    cipher.stream (cipher.init false pass salt) (cipher.encrypted pass salt plain) = some plain := by
  obtain ⟨out, encrypts, decrypts⟩ := cipher.round_trip pass salt plain
  have same := (cipher.stream_encrypt pass salt plain).symm.trans encrypts
  rw [Option.some.inj same]
  exact decrypts

theorem encrypted_inj {pass salt plain plain' : Bytes}
    (same : cipher.encrypted pass salt plain = cipher.encrypted pass salt plain') :
    plain = plain' := by
  have first := cipher.stream_decrypt pass salt plain
  rw [same, cipher.stream_decrypt pass salt plain'] at first
  exact (Option.some.inj first).symm

/-- A piece in front of the rest. -/
theorem stream_append (context : cipher.Context) (a b : Bytes) :
    cipher.stream context (a ++ b) =
      (cipher.stream (cipher.update context a).2 b).map ((cipher.update context a).1 ++ ·) := by
  rw [stream, stream, cipher.update_append, Option.map_map]
  apply congrArg (Option.map · _)
  funext out
  exact List.append_assoc _ _ _

end Cipher

def holdUpdate (context : UInt8 × Option UInt8) (input : Bytes) : Bytes × (UInt8 × Option UInt8) :=
  ((context.2.toList ++ input).dropLast.map (· ^^^ context.1),
    context.1, (context.2.toList ++ input).getLast?)

theorem dropLast_append_getLast (input : Bytes) :
    input.dropLast ++ input.getLast?.toList = input := by
  cases last : input.getLast? with
  | none =>
    rw [List.getLast?_eq_none_iff.mp last]
    rfl
  | some b => exact List.dropLast_append_getLast? b last

theorem mask_mask (mask : UInt8) (input : Bytes) :
    (input.map (· ^^^ mask)).map (· ^^^ mask) = input := by
  rw [List.map_map]
  refine (List.map_congr_left fun b _ => ?_).trans (List.map_id _)
  change b ^^^ mask ^^^ mask = b
  rw [UInt8.xor_assoc, UInt8.xor_self, UInt8.xor_zero]

theorem holdUpdate_whole (mask : UInt8) (input : Bytes) :
    (holdUpdate (mask, none) input).1 ++
      (holdUpdate (mask, none) input).2.2.toList.map (· ^^^ mask) = input.map (· ^^^ mask) := by
  rw [holdUpdate, ← List.map_append]
  exact congrArg _ (dropLast_append_getLast input)

theorem holdUpdate_append (context : UInt8 × Option UInt8) (a b : Bytes) :
    holdUpdate context (a ++ b) = ((holdUpdate context a).1 ++ (holdUpdate (holdUpdate context a).2 b).1,
      (holdUpdate (holdUpdate context a).2 b).2) := by
  obtain ⟨mask, held⟩ := context
  simp only [holdUpdate, ← List.map_append, ← List.append_assoc]
  generalize held.toList ++ a = c
  cases b with
  | nil => cases last : c.getLast? <;> simp [last]
  | cons b rest =>
    have front : (c ++ b :: rest).dropLast =
        c.dropLast ++ (c.getLast?.toList ++ b :: rest).dropLast := by
      rw [← List.dropLast_append_of_ne_nil (by simp), ← List.append_assoc, dropLast_append_getLast]
    rw [front]
    cases last : c.getLast? <;> simp [List.getLast?_append, List.getLast?_cons, last]

/-- A cipher that masks every byte, and holds the last one back until the end. -/
def holdCipher : Cipher where
  Context := UInt8 × Option UInt8
  init _ pass salt := ((pass ++ salt).foldl (· ^^^ ·) 0, none)
  update := holdUpdate
  call context size source :=
    if size < 0 then none else some (holdUpdate context (source.take size.toNat))
  final context := some (context.2.toList.map (· ^^^ context.1))
  blockMax := 1
  update_nil := by
    rintro ⟨mask, _ | b⟩ <;> rfl
  update_append context a b := holdUpdate_append context a b
  call_size := by
    intro context source size _
    simp
  call_negative := by
    intro context source size negative
    rw [if_pos negative]
  update_size := by
    rintro ⟨mask, held⟩ a
    have size : held.toList.length ≤ 1 := by cases held <;> simp
    simp only [holdUpdate, List.length_map, List.length_dropLast, List.length_append]
    omega
  final_size := by
    rintro ⟨mask, _ | b⟩ _ ⟨⟩ <;> simp
  round_trip := by
    intro pass salt plain
    refine ⟨_, congrArg some (holdUpdate_whole _ plain), ?_⟩
    exact congrArg some ((holdUpdate_whole _ _).trans (mask_mask _ plain))

end StreamCipher
