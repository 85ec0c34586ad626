/-!
Random words. A generator starts from a seed and gives out one word after another. The one that
workloads are drawn with is the key stream of ChaCha with twelve rounds, whose key is spread from the
seed by a linear congruential generator.
-/

namespace StreamPlacement

/-- A source of random words: where it starts from a seed, and how it gives out its next word. -/
structure Generator where
  State : Type
  start : Nat → State
  next : StateM State UInt64

namespace KeyStream

/-! ### The key -/

/-- Turns the low bits of a word to its high end. -/
def rotateRight (x : UInt32) (n : UInt32) : UInt32 :=
  (x >>> n) ||| (x <<< ((32 - n) % 32))

def rotateLeft (x : UInt32) (n : UInt32) : UInt32 := rotateRight x ((32 - n) % 32)

/-- One step of the generator that spreads a seed. -/
def spread (state : UInt64) : UInt64 := state * 6364136223846793005 + 11634580027462260723

/-- The word that a state of that generator gives out. -/
def spreadWord (state : UInt64) : UInt32 :=
  rotateRight (((state >>> 18) ^^^ state) >>> 27).toUInt32 (state >>> 59).toUInt32

/-- The first `n` words spread from a state. -/
def spreadWords : Nat → UInt64 → List UInt32
  | 0, _ => []
  | n + 1, state =>
    let next := spread state
    spreadWord next :: spreadWords n next

/-! ### Blocks -/

/-- Four words, one for each column of a block. -/
structure Row where
  a : UInt32
  b : UInt32
  c : UInt32
  d : UInt32
  deriving DecidableEq, Repr

namespace Row

def map₂ (f : UInt32 → UInt32 → UInt32) (x y : Row) : Row :=
  ⟨f x.a y.a, f x.b y.b, f x.c y.c, f x.d y.d⟩

def map (f : UInt32 → UInt32) (x : Row) : Row := ⟨f x.a, f x.b, f x.c, f x.d⟩

/-- Moves every word one column to the left. -/
def turn (x : Row) : Row := ⟨x.b, x.c, x.d, x.a⟩

def words (x : Row) : List UInt32 := [x.a, x.b, x.c, x.d]

def ofWords : List UInt32 → Row
  | [a, b, c, d] => ⟨a, b, c, d⟩
  | _ => ⟨0, 0, 0, 0⟩

end Row

/-- Four rows of four words. -/
structure Block where
  first : Row
  second : Row
  third : Row
  fourth : Row
  deriving DecidableEq, Repr

namespace Block

/-- Half of a quarter round in all four columns, with the two amounts to rotate by. -/
def half (block : Block) (m n : UInt32) : Block :=
  let first := Row.map₂ (· + ·) block.first block.second
  let fourth := (Row.map₂ (· ^^^ ·) block.fourth first).map (rotateLeft · m)
  let third := Row.map₂ (· + ·) block.third fourth
  let second := (Row.map₂ (· ^^^ ·) block.second third).map (rotateLeft · n)
  ⟨first, second, third, fourth⟩

/-- A quarter round in all four columns. -/
def round (block : Block) : Block := (block.half 16 12).half 8 7

/-- Lines up the diagonals as columns. -/
def skew (block : Block) : Block :=
  ⟨block.first, block.second.turn, block.third.turn.turn, block.fourth.turn.turn.turn⟩

/-- Puts the diagonals back. -/
def unskew (block : Block) : Block :=
  ⟨block.first, block.second.turn.turn.turn, block.third.turn.turn, block.fourth.turn⟩

/-- A round over the columns and one over the diagonals. -/
def doubleRound (block : Block) : Block := block.round.skew.round.unskew

/-- Several double rounds. -/
def doubleRounds : Nat → Block → Block
  | 0, block => block
  | n + 1, block => doubleRounds n block.doubleRound

/-- The block that a key and a counter start with. -/
def start (key : List UInt32) (counter : Nat) : Block :=
  ⟨⟨0x61707865, 0x3320646e, 0x79622d32, 0x6b206574⟩, .ofWords (key.take 4), .ofWords (key.drop 4),
    ⟨counter.toUInt32, (counter / Nat.pow 2 32).toUInt32, 0, 0⟩⟩

/-- The sixteen words of the key stream for a counter. -/
def output (key : List UInt32) (counter : Nat) : List UInt32 :=
  let before := start key counter
  let after := before.doubleRounds 6
  (Row.map₂ (· + ·) after.first before.first).words
    ++ (Row.map₂ (· + ·) after.second before.second).words
    ++ (Row.map₂ (· + ·) after.third before.third).words
    ++ (Row.map₂ (· + ·) after.fourth before.fourth).words

end Block

/-! ### Draws -/

/-- The key that belongs to a seed. -/
def key (seed : Nat) : List UInt32 := spreadWords 8 seed.toUInt64

/-- The draw in position `i`: two words of the stream, the low one first. -/
def draw (key : List UInt32) (i : Nat) : UInt64 :=
  let words := (Block.output key (i / 8)).drop (2 * (i % 8))
  match words with
  | low :: high :: _ => low.toUInt64 ||| (high.toUInt64 <<< 32)
  | _ => 0

/-- A key stream and the number of draws that were taken from it. -/
structure Cursor where
  key : List UInt32
  drawn : Nat := 0

/-- The generator that takes its draws from the key stream in order. -/
def generator : Generator where
  State := Cursor
  start seed := { key := key seed }
  next cursor := (draw cursor.key cursor.drawn, { cursor with drawn := cursor.drawn + 1 })

end KeyStream

end StreamPlacement
