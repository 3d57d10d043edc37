/-!
A reproducible stream of random words: the ChaCha stream cipher with twelve rounds, keyed by a
seed of 64 bits. The state of the stream is its key and the number of words drawn so far.
-/

set_option autoImplicit false

namespace CognitiveAgent

/-- A position in the stream of random words of a key. -/
structure Random where
  key : Vector UInt32 8
  drawn : Nat

namespace Random

def rotateLeft (x : UInt32) (count : UInt32) : UInt32 := x <<< count ||| x >>> (32 - count)

def rotateRight (x : UInt32) (count : UInt32) : UInt32 :=
  if count = 0 then x else x >>> count ||| x <<< (32 - count)

def nextSeedState (state : UInt64) : UInt64 := state * 6364136223846793005 + 11634580027462260723

def seedWord (state : UInt64) : UInt32 :=
  rotateRight ((((state >>> 18) ^^^ state) >>> 27).toUInt32) ((state >>> 59).toUInt32)

def seedState (seed : UInt64) : Nat → UInt64
  | 0 => seed
  | count + 1 => nextSeedState (seedState seed count)

def ofSeed (seed : UInt64) : Random :=
  { key := Vector.ofFn fun index => seedWord (seedState seed (index.val + 1)), drawn := 0 }

abbrev Block := Vector UInt32 16

def quarterRound (a b c d : Fin 16) (block : Block) : Block :=
  let wa := block[a] + block[b]
  let wd := rotateLeft (block[d] ^^^ wa) 16
  let wc := block[c] + wd
  let wb := rotateLeft (block[b] ^^^ wc) 12
  let wa := wa + wb
  let wd := rotateLeft (wd ^^^ wa) 8
  let wc := wc + wd
  let wb := rotateLeft (wb ^^^ wc) 7
  (((block.set a wa).set b wb).set c wc).set d wd

def doubleRound (block : Block) : Block :=
  block |> quarterRound 0 4 8 12 |> quarterRound 1 5 9 13 |> quarterRound 2 6 10 14
    |> quarterRound 3 7 11 15 |> quarterRound 0 5 10 15 |> quarterRound 1 6 11 12
    |> quarterRound 2 7 8 13 |> quarterRound 3 4 9 14

def doubleRounds : Nat → Block → Block
  | 0, block => block
  | count + 1, block => doubleRounds count (doubleRound block)

def start (key : Vector UInt32 8) (counter : Nat) : Block :=
  #v[0x61707865, 0x3320646e, 0x79622d32, 0x6b206574, key[0], key[1], key[2], key[3], key[4],
    key[5], key[6], key[7], UInt32.ofNat counter, UInt32.ofNat (counter / Nat.pow 2 32), 0, 0]

def block (key : Vector UInt32 8) (counter : Nat) : Block :=
  let first := start key counter
  let mixed := doubleRounds 6 first
  Vector.ofFn fun index => first[index] + mixed[index]

def wordAt (key : Vector UInt32 8) (position : Nat) : Nat :=
  ((block key (position / 16))[position % 16]?.getD 0).toNat

def next32 (r : Random) : Nat × Random := (wordAt r.key r.drawn, { r with drawn := r.drawn + 1 })

/-- Two words make one draw of 64 bits, the low half first. -/
def next64 (r : Random) : Nat × Random :=
  (wordAt r.key r.drawn + Nat.pow 2 32 * wordAt r.key (r.drawn + 1),
    { r with drawn := r.drawn + 2 })

inductive Width where
  | word
  | double
deriving DecidableEq

def Width.bits : Width → Nat
  | .word => 32
  | .double => 64

def draw (width : Width) (r : Random) : Nat × Random :=
  match width with
  | .word => r.next32
  | .double => r.next64

/-- The largest low half that is accepted, so that all numbers below the bound are equally
likely. -/
def zone (width : Width) (bound : Nat) : Nat :=
  bound * Nat.pow 2 (width.bits - (bound.log2 + 1)) - 1

/-- A number below a positive bound: the high half of the product of the bound and a draw. A draw
whose low half lies beyond the zone is repeated, at most `fuel` times. -/
def belowWithin (width : Width) (bound : Nat) : Nat → Random → Nat × Random
  | 0, r => (0, r)
  | fuel + 1, r =>
    let (value, r) := r.draw width
    let product := value * bound
    if product % Nat.pow 2 width.bits ≤ zone width bound then (product / Nat.pow 2 width.bits, r)
    else belowWithin width bound fuel r

/-- Each draw is accepted with a probability of one half or more, so that this many draws do not
all fail. -/
def attempts : Nat := 1024

def below (r : Random) (width : Width) (bound : Nat) : Nat × Random :=
  belowWithin width bound attempts r

/-- Exchanges each item from position `last` down to the second with one that is not after it. -/
def shuffleFrom {α : Type} : Nat → Array α → Random → Array α × Random
  | 0, items, r => (items, r)
  | last + 1, items, r =>
    let (index, r) := r.below .word (last + 2)
    shuffleFrom last (items.swapIfInBounds (last + 1) index) r

def shuffle {α : Type} (r : Random) (items : List α) : List α × Random :=
  let (shuffled, r) := shuffleFrom (items.length - 1) items.toArray r
  (shuffled.toList, r)

end Random

end CognitiveAgent
