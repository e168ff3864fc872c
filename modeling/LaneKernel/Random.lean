/-!
# Random words

A stream of random words is any function that turns a state into a word and the
next state.  `Pcg.next` is the generator in use: a linear congruential step on a
128-bit state, whose high half is then mixed with the low one.  `Random.below`
draws a number under a bound without favouring any; its answer is under the
bound for every stream.
-/

namespace LaneKernel

/-- A stream of random words. -/
abbrev RandomStream (σ : Type) := σ → UInt64 × σ

/-- A 128-bit generator state. -/
structure Pcg where
  high : UInt64
  low : UInt64
deriving DecidableEq, Repr

namespace Random

/-- The high word of the product of two words, from the products of their
halves. -/
def multiplyHigh (a b : UInt64) : UInt64 :=
  let half : UInt64 := 0xffffffff
  let (a1, a0) := (a >>> 32, a &&& half)
  let (b1, b0) := (b >>> 32, b &&& half)
  let carry := (a0 * b0) >>> 32
  let middle := a1 * b0 + carry
  let other := a0 * b1 + (middle &&& half)
  a1 * b1 + (middle >>> 32) + (other >>> 32)

end Random

namespace Pcg

def multiplierHigh : UInt64 := 0x2360ed051fc65da4
def multiplierLow : UInt64 := 0x4385df649fccf645
def incrementHigh : UInt64 := 0x5851f42d4c957f2d
def incrementLow : UInt64 := 0x14057b7ef767814f

/-- The state after one congruential step. -/
def advance (state : Pcg) : Pcg :=
  let low := state.low * multiplierLow
  let high := Random.multiplyHigh state.low multiplierLow
    + state.high * multiplierLow
    + state.low * multiplierHigh
  let low' := low + incrementLow
  let carry : UInt64 := if low' < low then 1 else 0
  ⟨high + incrementHigh + carry, low'⟩

/-- The word shown for a state. -/
def output (state : Pcg) : UInt64 :=
  let word := state.high ^^^ (state.high >>> 32)
  let word := word * 0xda942042e4dd58b5
  let word := word ^^^ (word >>> 48)
  word * (state.low ||| 1)

/-- Steps the state and shows it. -/
def next (state : Pcg) : UInt64 × Pcg :=
  let state := state.advance
  (state.output, state)

end Pcg

namespace Random

variable {σ : Type}

/-- A 32-bit word: the upper half of a word of the stream. -/
@[specialize] def word32 (stream : RandomStream σ) (state : σ) : UInt32 × σ :=
  let (word, state) := stream state
  ((word >>> 32).toUInt32, state)

/-- The number of times that a draw is repeated.  Each repetition happens with
less than an even chance. -/
def redraws : Nat := 4096

/-- Draws until the low word of the product with the bound is not under the
threshold, and answers the high word. -/
def belowFrom (stream : RandomStream σ) (bound threshold : UInt64) :
    Nat → UInt64 → σ → UInt64 × σ
  | 0, word, state => (multiplyHigh word bound, state)
  | count + 1, word, state =>
      if word * bound < threshold then
        let (word, state) := stream state
        belowFrom stream bound threshold count word state
      else (multiplyHigh word bound, state)

/-- A number under a bound that is not zero. -/
def below (stream : RandomStream σ) (bound : UInt64) (state : σ) : UInt64 × σ :=
  let (word, state) := stream state
  if bound &&& (bound - 1) = 0 then (word &&& (bound - 1), state)
  else belowFrom stream bound ((0 - bound) % bound) redraws word state

/-- A number under a bound; there is none when the bound is not positive. -/
def below? (stream : RandomStream σ) (bound : Int64) (state : σ) :
    Option (UInt64 × σ) :=
  if bound ≤ 0 then none else some (below stream bound.toUInt64 state)

/-- Appends the low bytes of as many 32-bit words. -/
@[specialize] def bytes (stream : RandomStream σ) :
    Nat → Array UInt8 → σ → Array UInt8 × σ
  | 0, data, state => (data, state)
  | count + 1, data, state =>
      let (word, state) := word32 stream state
      bytes stream count (data.push word.toUInt8) state

end Random

end LaneKernel
