import BindingDocs.Html.Rules

/-!
# Reading pages

A text is cut into tokens, and the page is built from them.  Every text is a page.
-/

namespace BindingDocs.Html

/-- Takes tokens in turn.  The text after a tag is ordinary again unless its rule says otherwise;
`name` is the name of the latest start tag. -/
def takeAll (content : Content) (name : String) : List Token → Builder → Builder × Content × String
  | [], b => (b, content, name)
  | t :: rest, b =>
    let (b, change) := b.feed t
    let content := match t with
      | .startTag _ | .endTag _ => change.getD .data
      | _ => change.getD content
    let name := match t with
      | .startTag tag => tag.name
      | _ => name
    takeAll content name rest b

/-- Builds a page from a text; `fuel` bounds the number of pieces read. -/
def build : (fuel : Nat) → Content → (name : String) → List Char → Builder → Builder
  | 0, _, _, _, b => b
  | _ + 1, _, _, [], b => (b.feed .eof).1
  | fuel + 1, content, name, s, b =>
    let foreign := b.currentIs (·.space != .html)
    let (ts, rest) := tokens content name foreign s
    let (b, content, name) := takeAll content name ts b
    build fuel content name rest b

/-- The page that a text stands for. -/
def parse (text : List Char) : Page :=
  let s := normalise text
  let b := build (s.length + 2) .data "" s {}
  ⟨b.page.document.toForest, b.page.next⟩

end BindingDocs.Html
