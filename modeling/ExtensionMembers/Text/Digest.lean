/-!
# 64-bit digests

`digest` is the 64-bit xxHash, with seed 0, of a sequence of bytes: four lanes absorb stripes of
32 bytes, the lanes are merged, the remaining bytes are absorbed by eights, by four and one by
one, and a last round spreads every bit over the word. All arithmetic is modulo 2 ^ 64.

## References

- Specification, §10.4, Hashing and collections
-/

namespace ExtensionMembers.Text

namespace Digest

/-- The first mixing factor. -/
def factor₁ : UInt64 := 0x9E3779B185EBCA87
/-- The second mixing factor. -/
def factor₂ : UInt64 := 0xC2B2AE3D27D4EB4F
/-- The third mixing factor. -/
def factor₃ : UInt64 := 0x165667B19E3779F9
/-- The fourth mixing factor. -/
def factor₄ : UInt64 := 0x85EBCA77C2B2AE63
/-- The fifth mixing factor. -/
def factor₅ : UInt64 := 0x27D4EB2F165667C5

/-- The word turned left by `count` bits. -/
def rotate (word count : UInt64) : UInt64 := (word <<< count) ||| (word >>> (64 - count))

/-- The bytes from position `start` on, at most `count` of them. -/
def slice (bytes : List UInt8) (start count : Nat) : List UInt8 := (bytes.drop start).take count

/-- The word whose lowest byte comes first. -/
def word (bytes : List UInt8) : UInt64 :=
  bytes.foldr (fun byte high => (high <<< 8) ||| byte.toUInt64) 0

/-- A lane after it has absorbed one word. -/
def absorb (lane input : UInt64) : UInt64 := rotate (lane + input * factor₂) 31 * factor₁

/-- The four lanes after they have absorbed one stripe, a word each. -/
def absorbStripe (lanes : UInt64 × UInt64 × UInt64 × UInt64) (stripe : List UInt8) :
    UInt64 × UInt64 × UInt64 × UInt64 :=
  (absorb lanes.1 (word (slice stripe 0 8)), absorb lanes.2.1 (word (slice stripe 8 8)),
    absorb lanes.2.2.1 (word (slice stripe 16 8)), absorb lanes.2.2.2 (word (slice stripe 24 8)))

/-- The merged state after one more lane. -/
def mergeLane (state lane : UInt64) : UInt64 := (state ^^^ absorb 0 lane) * factor₁ + factor₄

/-- The state after all whole stripes; shorter inputs skip the lanes. -/
def absorbStripes (bytes : List UInt8) : UInt64 :=
  if bytes.length < 32 then factor₅
  else
    let stripes := (List.range (bytes.length / 32)).map fun i => slice bytes (32 * i) 32
    -- The lanes start apart, so that equal words leave different traces in them.
    let lanes := stripes.foldl absorbStripe (factor₁ + factor₂, factor₂, 0, 0 - factor₁)
    let sum := rotate lanes.1 1 + rotate lanes.2.1 7 + rotate lanes.2.2.1 12
      + rotate lanes.2.2.2 18
    mergeLane (mergeLane (mergeLane (mergeLane sum lanes.1) lanes.2.1) lanes.2.2.1) lanes.2.2.2

/-- The state after one more group of eight bytes. -/
def absorbEight (state : UInt64) (group : List UInt8) : UInt64 :=
  rotate (state ^^^ absorb 0 (word group)) 27 * factor₁ + factor₄

/-- The state after a group of four bytes. -/
def absorbFour (state : UInt64) (group : List UInt8) : UInt64 :=
  rotate (state ^^^ (word group * factor₁)) 23 * factor₂ + factor₃

/-- The state after one more byte. -/
def absorbByte (state : UInt64) (byte : UInt8) : UInt64 :=
  rotate (state ^^^ (byte.toUInt64 * factor₅)) 11 * factor₁

/-- The state after the fewer than 32 bytes that follow the last whole stripe. -/
def absorbRest (state : UInt64) (rest : List UInt8) : UInt64 :=
  let eights := (List.range (rest.length / 8)).map fun i => slice rest (8 * i) 8
  let tail := rest.drop (8 * (rest.length / 8))
  let state := eights.foldl absorbEight state
  if tail.length < 4 then tail.foldl absorbByte state
  else (tail.drop 4).foldl absorbByte (absorbFour state (tail.take 4))

/-- The last round. -/
def spread (state : UInt64) : UInt64 :=
  let state := (state ^^^ (state >>> 33)) * factor₂
  let state := (state ^^^ (state >>> 29)) * factor₃
  state ^^^ (state >>> 32)

end Digest

/-- The 64-bit xxHash of a sequence of bytes, with seed 0: `absorbStripes`, `absorbRest`, then
`spread`. -/
def digest (bytes : List UInt8) : UInt64 :=
  let state := Digest.absorbStripes bytes + UInt64.ofNat bytes.length
  Digest.spread (Digest.absorbRest state (bytes.drop (32 * (bytes.length / 32))))

end ExtensionMembers.Text
