/-!
The 64-bit FarmHash fingerprint of a text, taken over its UTF-8 bytes with all arithmetic modulo
`2⁶⁴`. Texts of up to 64 bytes are hashed from a few overlapping words; longer ones pass block by
block through a state of seven words, and the last 64 bytes are absorbed once more at the end.
-/

namespace Targeting.Fingerprint

def k₀ : UInt64 := 0xc3a5c85c97cb3127
def k₁ : UInt64 := 0xb492b66fbe98f273
def k₂ : UInt64 := 0x9ae16a3b2f90404f

/-- The little-endian number of some bytes. -/
def littleEndian (bytes : List UInt8) : UInt64 :=
  bytes.foldr (fun b acc => acc <<< 8 + b.toUInt64) 0

def word (s : List UInt8) (i : Nat) : UInt64 := littleEndian ((s.drop i).take 8)
def halfWord (s : List UInt8) (i : Nat) : UInt64 := littleEndian ((s.drop i).take 4)
def byte (s : List UInt8) (i : Nat) : UInt64 := (s.getD i 0).toUInt64

def rotate (v : UInt64) (n : UInt64) : UInt64 := v >>> n ||| v <<< (64 - n)

def fold (v : UInt64) : UInt64 := v ^^^ v >>> 47

/-- Joins two words into one. -/
def join (u v m : UInt64) : UInt64 :=
  let a := fold ((u ^^^ v) * m)
  fold ((v ^^^ a) * m) * m

def ofTiny (s : List UInt8) : UInt64 :=
  let n := s.length
  let y := byte s 0 + byte s (n / 2) <<< 8
  let z := .ofNat n + byte s (n - 1) <<< 2
  fold (y * k₂ ^^^ z * k₀) * k₂

def lengthFactor (s : List UInt8) : UInt64 := k₂ + 2 * .ofNat s.length

def ofShort (s : List UInt8) : UInt64 :=
  let n := s.length
  join (.ofNat n + halfWord s 0 <<< 3) (halfWord s (n - 4)) (lengthFactor s)

def ofMedium (s : List UInt8) : UInt64 :=
  let m := lengthFactor s
  let a := word s 0 + k₂
  let b := word s (s.length - 8)
  join (rotate b 37 * m + a) ((rotate a 25 + b) * m) m

def ofLong (s : List UInt8) : UInt64 :=
  let n := s.length
  let m := lengthFactor s
  let a := word s 0 * k₁
  let b := word s 8
  let c := word s (n - 8) * m
  let d := word s (n - 16) * k₂
  join (rotate (a + b) 43 + rotate c 30 + d) (a + rotate (b + k₂) 18 + c) m

def ofLonger (s : List UInt8) : UInt64 :=
  let n := s.length
  let m := lengthFactor s
  let a := word s 0 * k₂
  let b := word s 8
  let c := word s (n - 8) * m
  let d := word s (n - 16) * k₂
  let y := rotate (a + b) 43 + rotate c 30 + d
  let z := join y (a + rotate (b + k₂) 18 + c) m
  let e := word s 16 * m
  let f := word s 24
  let g := (y + word s (n - 32)) * m
  let h := (z + word s (n - 24)) * m
  join (rotate (e + f) 43 + rotate g 30 + h) (e + rotate (f + a) 18 + g) m

structure State where
  x : UInt64
  y : UInt64
  z : UInt64
  v : UInt64 × UInt64
  w : UInt64 × UInt64

/-- Takes in 32 bytes, starting at byte `i`. -/
def weave (s : List UInt8) (i : Nat) (a b : UInt64) : UInt64 × UInt64 :=
  let a := a + word s i
  let b := rotate (b + a + word s (i + 24)) 21
  let c := a
  let a := a + word s (i + 8) + word s (i + 16)
  (a + word s (i + 24), b + rotate a 44 + c)

/-- Takes in a block of 64 bytes. The last block differs in the factor `m` and the weight `k` of two
of the words. -/
def State.absorb (m k : UInt64) (st : State) (s : List UInt8) : State :=
  let x := rotate (st.x + st.y + st.v.1 + word s 8) 37 * m ^^^ st.w.2 * k
  let y := rotate (st.y + st.v.2 + word s 48) 42 * m + st.v.1 * k + word s 40
  let z := rotate (st.z + st.w.1) 33 * m
  let v := weave s 0 (st.v.2 * m) (x + st.w.1)
  let w := weave s 32 (z + st.w.2) (y + word s 16)
  ⟨z, y, x, v, w⟩

def State.start (s : List UInt8) : State :=
  let y := 81 * k₁ + 113
  ⟨81 * k₂ + word s 0, y, fold (y * k₂ + 113) * k₂, (0, 0), (0, 0)⟩

/-- Absorbs the given number of blocks, one after the other. -/
def State.absorbBlocks : Nat → State → List UInt8 → State
  | 0, st, _ => st
  | n + 1, st, s => absorbBlocks n (st.absorb k₁ 1 s) (s.drop 64)

/-- Adds the size of the last block and lets the two pairs meet. -/
def State.close (size : UInt64) (st : State) : State :=
  let w₀ := st.w.1 + size
  let v₀ := st.v.1 + w₀
  { st with v := (v₀, st.v.2), w := (w₀ + v₀, st.w.2) }

def State.digest (m : UInt64) (st : State) : UInt64 :=
  join (join st.v.1 st.w.1 m + fold st.y * k₀ + st.z) (join st.v.2 st.w.2 m + st.x) m

def ofBlocks (s : List UInt8) : UInt64 :=
  let n := s.length
  let st := (State.start s).absorbBlocks ((n - 1) / 64) s
  let m := k₁ + (st.z &&& 0xff) <<< 1
  ((st.close (.ofNat ((n - 1) % 64))).absorb m 9 (s.drop (n - 64))).digest m

def ofBytes (s : List UInt8) : UInt64 :=
  let n := s.length
  if n = 0 then k₂
  else if n ≤ 3 then ofTiny s
  else if n ≤ 7 then ofShort s
  else if n ≤ 16 then ofMedium s
  else if n ≤ 32 then ofLong s
  else if n ≤ 64 then ofLonger s
  else ofBlocks s

def ofText (s : String) : Nat := (ofBytes s.toUTF8.toList).toNat

theorem ofText_lt (s : String) : ofText s < UInt64.size := UInt64.toNat_lt_size _

end Targeting.Fingerprint
