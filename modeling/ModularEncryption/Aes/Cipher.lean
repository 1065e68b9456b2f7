import ModularEncryption.Aes.Schedule
import ModularEncryption.Block

/-! # The block cipher

A block is enciphered by adding the first round key and then running one round for each further
round key, the last round without mixing columns. Under any round keys this is injective
(`encipher_injective`): every step of a round can be undone. -/

namespace ModularEncryption.Aes

/-- The byte of a block in the given place. -/
def blockByte (b : Block) (i : Nat) : UInt8 := UInt8.ofNat (b.toNat >>> (8 * (15 - i)))

namespace State

/-- The state whose columns, one after the other, are the bytes of a block. -/
def ofBlock (b : Block) : State :=
  let column (i : Nat) : Word :=
    ⟨blockByte b i, blockByte b (i + 1), blockByte b (i + 2), blockByte b (i + 3)⟩
  ⟨column 0, column 4, column 8, column 12⟩

/-- The bytes of a state, column by column. -/
def toBytes (s : State) : Bytes :=
  [s.c0.b0, s.c0.b1, s.c0.b2, s.c0.b3, s.c1.b0, s.c1.b1, s.c1.b2, s.c1.b3,
   s.c2.b0, s.c2.b1, s.c2.b2, s.c2.b3, s.c3.b0, s.c3.b1, s.c3.b2, s.c3.b3]

/-- The block of a state. -/
def toBlock (s : State) : Block := Block.ofBytes s.toBytes

/-- One round; the last one leaves the columns unmixed. -/
def runRounds : State → List State → State
  | s, [] => s
  | s, [k] => s.substitute.shiftRows.add k
  | s, k :: ks => runRounds (s.substitute.shiftRows.mixColumns.add k) ks

/-- The rounds under the given round keys, the first of which is only added. -/
def encipher (keys : List State) (s : State) : State :=
  match keys with
  | [] => s
  | k :: ks => runRounds (s.add k) ks

theorem add_right_cancel {s t k : State} (h : s.add k = t.add k) : s = t := by
  rw [← add_add_cancel s k, h, add_add_cancel]

theorem shiftRows_injective {s t : State} (h : s.shiftRows = t.shiftRows) : s = t := by
  rw [← unshiftRows_shiftRows s, h, unshiftRows_shiftRows]

theorem mixColumns_injective {s t : State} (h : s.mixColumns = t.mixColumns) : s = t := by
  rw [← map_unmix_mixColumns s, h, map_unmix_mixColumns]

theorem substitute_injective {s t : State} (h : s.substitute = t.substitute) : s = t := by
  rw [← restore_substitute s, h, restore_substitute]

theorem runRounds_injective : ∀ (ks : List State) {s t : State},
    runRounds s ks = runRounds t ks → s = t
  | [], _, _, h => h
  | [_], _, _, h => substitute_injective (shiftRows_injective (add_right_cancel h))
  | _ :: k :: ks, _, _, h =>
    substitute_injective (shiftRows_injective (mixColumns_injective
      (add_right_cancel (runRounds_injective (k :: ks) h))))

theorem encipher_injective {keys : List State} {s t : State}
    (h : encipher keys s = encipher keys t) : s = t := by
  cases keys with
  | nil => exact h
  | cons k ks => exact add_right_cancel (runRounds_injective ks h)

theorem toBytes_ofBlock (b : Block) : (ofBlock b).toBytes = b.toBytes := by
  simp [ofBlock, toBytes, blockByte, Block.toBytes, Bytes.bigEndian, Bytes.littleEndian,
    Nat.shiftRight_eq_div_pow, Nat.div_div_eq_div_mul]

theorem toBytes_injective {s t : State} (h : s.toBytes = t.toBytes) : s = t := by
  obtain ⟨⟨_, _, _, _⟩, ⟨_, _, _, _⟩, ⟨_, _, _, _⟩, ⟨_, _, _, _⟩⟩ := s
  obtain ⟨⟨_, _, _, _⟩, ⟨_, _, _, _⟩, ⟨_, _, _, _⟩, ⟨_, _, _, _⟩⟩ := t
  simp only [toBytes, List.cons.injEq, and_true] at h
  simp only [mk.injEq, Word.mk.injEq]
  simp only [h, and_self]

end State

/-- The block cipher under the given round keys. -/
def encipher (keys : List State) (b : Block) : Block := ((State.ofBlock b).encipher keys).toBlock

/-- The block cipher sends no two blocks to one. -/
theorem encipher_injective {keys : List State} {a b : Block}
    (h : encipher keys a = encipher keys b) : a = b := by
  have bytes := congrArg Block.toBytes h
  simp only [encipher, State.toBlock] at bytes
  rw [Block.toBytes_ofBytes rfl, Block.toBytes_ofBytes rfl] at bytes
  have states := State.encipher_injective (State.toBytes_injective bytes)
  rw [← Block.ofBytes_toBytes a, ← Block.ofBytes_toBytes b, ← State.toBytes_ofBlock,
    ← State.toBytes_ofBlock, states]

end ModularEncryption.Aes
