import NetTrace.Text.Excerpt

namespace NetTrace

/-- What a phrase needs of its input. Looking at a character and quoting may bring more of the input
    into view, so they too give a new state; only `next`, `span` and `rewind` move the position. -/
class Input (σ : Type) (μ : outParam Type) where
  peek : σ → Option Char × σ
  next : σ → Option Char × σ
  span : (Char → Bool) → σ → Text × σ
  mark : σ → μ
  rewind : μ → σ → σ
  quote : μ → σ → Text × σ
  /-- A number of bytes that is not less than the number of characters after the position. -/
  remaining : σ → Nat

instance : Input Text Text where
  peek text := (text.head?, text)
  next text := (text.head?, text.tail)
  span test text := (text.takeWhile test, text.dropWhile test)
  mark text := text
  rewind text _ := text
  quote start text := (Text.excerpt start, text)
  remaining text := Text.byteLength text

end NetTrace
