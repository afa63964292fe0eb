/-!
# Digests

A digest is the 64-bit SipHash-1-3 of a list of bytes under the key zero. Subtrees are indexed by
their digests: equal subtrees have equal digests, and different subtrees almost never do. Nothing
else about the function matters here.
-/

namespace CallDelta

namespace Digest

/-- The four words of the state. -/
structure State where
  v0 : UInt64
  v1 : UInt64
  v2 : UInt64
  v3 : UInt64

/-- Rotation to the left. -/
def rotate (x : UInt64) (k : UInt64) : UInt64 := (x <<< k) ||| (x >>> (64 - k))

/-- One round of mixing. -/
def State.mix (s : State) : State :=
  let a0 := s.v0 + s.v1
  let a1 := rotate s.v1 13 ^^^ a0
  let a2 := s.v2 + s.v3
  let a3 := rotate s.v3 16 ^^^ a2
  let b0 := rotate a0 32 + a3
  let b2 := a2 + a1
  { v0 := b0, v1 := rotate a1 17 ^^^ b2, v2 := rotate b2 32, v3 := rotate a3 21 ^^^ b0 }

/-- Takes in one word. -/
def State.absorb (s : State) (word : UInt64) : State :=
  let mixed := State.mix { s with v3 := s.v3 ^^^ word }
  { mixed with v0 := mixed.v0 ^^^ word }

/-- The state before any word, for the key zero. -/
def State.start : State :=
  { v0 := 0x736f6d6570736575, v1 := 0x646f72616e646f6d
    v2 := 0x6c7967656e657261, v3 := 0x7465646279746573 }

/-- The word of at most eight bytes, the first byte lowest. -/
def word (bytes : List UInt8) : UInt64 :=
  bytes.foldr (fun b w => (w <<< 8) ||| b.toUInt64) 0

/-- Takes in the bytes eight at a time. The last word holds what is left over, with the length of
the whole input in its top byte. -/
def absorbAll (length : Nat) (s : State) : List UInt8 → State
  | b0 :: b1 :: b2 :: b3 :: b4 :: b5 :: b6 :: b7 :: rest =>
    absorbAll length (s.absorb (word [b0, b1, b2, b3, b4, b5, b6, b7])) rest
  | rest => s.absorb (word rest ||| (UInt64.ofNat length <<< 56))

/-- The digest of a list of bytes. -/
def ofBytes (bytes : List UInt8) : UInt64 :=
  let s := absorbAll bytes.length .start bytes
  let s := State.mix (State.mix (State.mix { s with v2 := s.v2 ^^^ 0xff }))
  s.v0 ^^^ s.v1 ^^^ s.v2 ^^^ s.v3

/-- The eight bytes of a word, the lowest first. -/
def wordBytes (w : UInt64) : List UInt8 :=
  (List.range 8).map (fun k => (w >>> UInt64.ofNat (8 * k)).toUInt8)

/-- The bytes of a text and a closing byte that no text contains. -/
def textBytes (s : String) : List UInt8 := s.toUTF8.toList ++ [0xff]

/-- The digest of a node from its type name, its label and the digests of its children. -/
def ofNode (typeName : String) (label : Option String) (children : List UInt64) : UInt64 :=
  ofBytes
    (textBytes typeName ++
      label.elim (wordBytes 0) (fun text => wordBytes 1 ++ textBytes text) ++
      children.flatMap wordBytes ++
      wordBytes (UInt64.ofNat children.length))

end Digest

end CallDelta
