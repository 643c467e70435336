/-! Shuffling by a sequence of numbers that a seed determines: the generator has 256 bits of state and is known
    as xoshiro256++. -/

namespace Fleet

structure Generator where
  a : UInt64
  b : UInt64
  c : UInt64
  d : UInt64
  deriving DecidableEq

namespace Generator

/-- `x` turned to the left by `k` bits, for `k` from 1 to 63. -/
def rotateLeft (x k : UInt64) : UInt64 := (x <<< k) ||| (x >>> (64 - k))

/-- `x` turned to the right by `k` bits, for `k` from 0 to 31. -/
def rotateRight (x k : UInt32) : UInt32 := (x >>> k) ||| (x <<< ((32 - k) % 32))

/-- One step of the sequence that spreads a seed. -/
def spread (s : UInt64) : UInt64 := s * 6364136223846793005 + 11634580027462260723

/-- The 32 bits that a step of that sequence gives. -/
def spreadWord (s : UInt64) : UInt64 :=
  (rotateRight (((s >>> 18) ^^^ s) >>> 27).toUInt32 (s >>> 59).toUInt32).toUInt64

/-- A word of state from two steps, the lower half first, and the sequence behind them. -/
def spreadPair (s : UInt64) : UInt64 × UInt64 :=
  let s := spread s
  let low := spreadWord s
  let s := spread s
  (low ||| (spreadWord s <<< 32), s)

def ofSeed (seed : UInt64) : Generator :=
  let (a, s) := spreadPair seed
  let (b, s) := spreadPair s
  let (c, s) := spreadPair s
  let (d, _) := spreadPair s
  ⟨a, b, c, d⟩

def next (g : Generator) : UInt64 × Generator :=
  let result := rotateLeft (g.a + g.d) 23 + g.a
  let t := g.b <<< 17
  let c := g.c ^^^ g.a
  let d := g.d ^^^ g.b
  let b := g.b ^^^ c
  let a := g.a ^^^ d
  (result, ⟨a, b, c ^^^ t, rotateLeft d 45⟩)

/-- The next 32 bits: the upper half of the next 64. -/
def nextWord (g : Generator) : Nat × Generator :=
  let (bits, g) := g.next
  ((bits >>> 32).toNat, g)

/-- Draws below `n`, an even share for each: a draw whose lower half lies above `zone` is thrown away, at most
    `tries` times. -/
def draw (n zone : Nat) : Nat → Generator → Nat × Generator
  | 0, g => (0, g)
  | tries + 1, g =>
    let (word, g) := g.nextWord
    let product := word * n
    if product % 0x100000000 ≤ zone then (product / 0x100000000, g) else draw n zone tries g

/-- A number below `n`, for `n` from 1 to `2 ^ 32 - 1`. At least every second draw counts, so running out of
    tries is out of the question. -/
def below (n : Nat) (g : Generator) : Nat × Generator :=
  draw n ((n <<< (31 - n.log2)) - 1) 1000 g

/-- Swaps the elements from place `i` down to place 1 each with one that is not behind it. -/
def shuffleFrom {α : Type} : Nat → Array α → Generator → Array α × Generator
  | 0, as, g => (as, g)
  | i + 1, as, g =>
    let (j, g) := g.below (i + 2)
    shuffleFrom i (as.swapIfInBounds (i + 1) j) g

/-- The elements in another order. -/
def shuffle {α : Type} (as : List α) (g : Generator) : List α × Generator :=
  let (shuffled, g) := shuffleFrom (as.length - 1) as.toArray g
  (shuffled.toList, g)

end Generator

end Fleet
