import ModularEncryption.Aes.Byte

/-! # Words and states of the block cipher

A word is a column of four bytes; a state is four words. The four steps of a round act on them:
`State.substitute` bytewise, `State.shiftRows` along the rows, `State.mixColumns` on each column by
a fixed matrix (`Word.mix`), and `State.add` with a round key.

Each step can be undone: `Word.unmix_mix`, `State.unshiftRows_shiftRows`, `State.add_add_cancel`,
`State.restore_substitute`. -/

namespace ModularEncryption.Aes

/-- A column of four bytes. -/
structure Word where
  b0 : UInt8
  b1 : UInt8
  b2 : UInt8
  b3 : UInt8
deriving DecidableEq, Repr

namespace Word

/-- The bytewise sum of two words. -/
def add (v w : Word) : Word := ⟨v.b0 ^^^ w.b0, v.b1 ^^^ w.b1, v.b2 ^^^ w.b2, v.b3 ^^^ w.b3⟩

/-- A function applied to each byte. -/
def map (f : UInt8 → UInt8) (w : Word) : Word := ⟨f w.b0, f w.b1, f w.b2, f w.b3⟩

/-- The bytes moved up by one place, the first one to the end. -/
def rotate (w : Word) : Word := ⟨w.b1, w.b2, w.b3, w.b0⟩

/-- One entry of a column multiplied by the matrix, whose row is `2 3 1 1`. -/
def mixEntry (a b c d : UInt8) : UInt8 := double a ^^^ (double b ^^^ b) ^^^ c ^^^ d

/-- The column multiplied by the circulant matrix with the first row `2 3 1 1`. -/
def mix (w : Word) : Word :=
  ⟨mixEntry w.b0 w.b1 w.b2 w.b3, mixEntry w.b1 w.b2 w.b3 w.b0,
   mixEntry w.b2 w.b3 w.b0 w.b1, mixEntry w.b3 w.b0 w.b1 w.b2⟩

/-- One entry of the column multiplied by the inverse matrix, with the row `14 11 13 9`. -/
def unmixEntry (a b c d : UInt8) : UInt8 :=
  (double (double (double a)) ^^^ double (double a) ^^^ double a) ^^^
  (double (double (double b)) ^^^ double b ^^^ b) ^^^
  (double (double (double c)) ^^^ double (double c) ^^^ c) ^^^
  (double (double (double d)) ^^^ d)

/-- The column multiplied by the circulant matrix with the first row `14 11 13 9`. -/
def unmix (w : Word) : Word :=
  ⟨unmixEntry w.b0 w.b1 w.b2 w.b3, unmixEntry w.b1 w.b2 w.b3 w.b0,
   unmixEntry w.b2 w.b3 w.b0 w.b1, unmixEntry w.b3 w.b0 w.b1 w.b2⟩

theorem xor_left_cancel (a b : UInt8) : a ^^^ (a ^^^ b) = b := by
  rw [← UInt8.xor_assoc, UInt8.xor_self, UInt8.zero_xor]

theorem xor_left_comm (a b c : UInt8) : a ^^^ (b ^^^ c) = b ^^^ (a ^^^ c) := by
  rw [← UInt8.xor_assoc, UInt8.xor_comm a b, UInt8.xor_assoc]

/-- Rows of the two matrices multiply to a row of the identity: all powers of `x` cancel. -/
theorem unmixEntry_mix (a b c d : UInt8) :
    unmixEntry (mixEntry a b c d) (mixEntry b c d a) (mixEntry c d a b) (mixEntry d a b c) = a := by
  simp only [unmixEntry, mixEntry, double_xor]
  generalize double (double (double (double a))) = a4
  generalize double (double (double (double b))) = b4
  generalize double (double (double (double c))) = c4
  generalize double (double (double (double d))) = d4
  generalize double (double (double a)) = a3
  generalize double (double (double b)) = b3
  generalize double (double (double c)) = c3
  generalize double (double (double d)) = d3
  generalize double (double a) = a2
  generalize double (double b) = b2
  generalize double (double c) = c2
  generalize double (double d) = d2
  generalize double a = a1
  generalize double b = b1
  generalize double c = c1
  generalize double d = d1
  simp only [UInt8.xor_comm, xor_left_comm, UInt8.xor_self, UInt8.xor_zero,
    xor_left_cancel]

theorem unmix_mix (w : Word) : w.mix.unmix = w := by
  simp [mix, unmix, unmixEntry_mix]

theorem add_add_cancel (v k : Word) : (v.add k).add k = v := by
  simp only [add, UInt8.xor_assoc, UInt8.xor_self, UInt8.xor_zero]

theorem map_restore_map_substitute (w : Word) : (w.map substitute).map restore = w := by
  simp [map, restore_substitute]

end Word

/-- Four columns. -/
structure State where
  c0 : Word
  c1 : Word
  c2 : Word
  c3 : Word
deriving DecidableEq, Repr

namespace State

/-- The bytewise sum of two states. -/
def add (s k : State) : State := ⟨s.c0.add k.c0, s.c1.add k.c1, s.c2.add k.c2, s.c3.add k.c3⟩

/-- A function applied to each column. -/
def map (f : Word → Word) (s : State) : State := ⟨f s.c0, f s.c1, f s.c2, f s.c3⟩

/-- Each byte replaced by its substitute. -/
def substitute (s : State) : State := s.map (Word.map Aes.substitute)

/-- Row `r` turned left by `r` columns. -/
def shiftRows (s : State) : State :=
  ⟨⟨s.c0.b0, s.c1.b1, s.c2.b2, s.c3.b3⟩, ⟨s.c1.b0, s.c2.b1, s.c3.b2, s.c0.b3⟩,
   ⟨s.c2.b0, s.c3.b1, s.c0.b2, s.c1.b3⟩, ⟨s.c3.b0, s.c0.b1, s.c1.b2, s.c2.b3⟩⟩

/-- Row `r` turned right by `r` columns. -/
def unshiftRows (s : State) : State :=
  ⟨⟨s.c0.b0, s.c3.b1, s.c2.b2, s.c1.b3⟩, ⟨s.c1.b0, s.c0.b1, s.c3.b2, s.c2.b3⟩,
   ⟨s.c2.b0, s.c1.b1, s.c0.b2, s.c3.b3⟩, ⟨s.c3.b0, s.c2.b1, s.c1.b2, s.c0.b3⟩⟩

/-- Each column mixed. -/
def mixColumns (s : State) : State := s.map Word.mix

theorem add_add_cancel (s k : State) : (s.add k).add k = s := by
  simp [add, Word.add_add_cancel]

theorem unshiftRows_shiftRows (s : State) : s.shiftRows.unshiftRows = s := rfl

theorem map_unmix_mixColumns (s : State) : s.mixColumns.map Word.unmix = s := by
  simp [mixColumns, map, Word.unmix_mix]

theorem restore_substitute (s : State) : s.substitute.map (Word.map restore) = s := by
  simp [substitute, map, Word.map_restore_map_substitute]

end State

end ModularEncryption.Aes
