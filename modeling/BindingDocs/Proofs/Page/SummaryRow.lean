import BindingDocs.Proofs.Page.NodeChanges

/-!
# What a summary shows

The row with the arguments of a member is built from many small trees.  What a reader sees of it is
one line of text, and the return type at its end stands in a span of its own.

## Main definitions

* `Forest.innerText` — the texts of trees, joined.
* `Forest.spanTexts` — the texts of the spans of a class.
* `shownText`, `summaryText` — a cell and a summary as they are shown.
* `IsSummary` — a row that shows a summary.

## Main results

* `innerText_summaryRow` — **the text of a summary.**
* `spanTexts_summaryRow` — the return type in a summary.
* `exists_row` — a summary that was put into a page is one row.
-/

namespace BindingDocs.Page

open Page (Forest Item Node)

/-! ### Texts of trees -/

namespace Forest

variable {f g : Forest} {cls : String}

/-- The texts of trees, joined. -/
def innerText (f : Forest) : String := String.join (f.nodes.filterMap (·.item.text?))

@[simp] theorem innerText_nil : nil.innerText = "" := rfl

theorem innerText_cons (l : Nat) (i : Item) (below next : Forest) :
    (cons l i below next).innerText =
      i.text?.getD "" ++ (below.innerText ++ next.innerText) := by
  rw [innerText, nodes, List.filterMap_cons, List.filterMap_append]
  cases i.text? <;> simp [innerText]

@[simp] theorem innerText_append (f g : Forest) :
    (f ++ g).innerText = f.innerText ++ g.innerText := by
  rw [innerText, nodes_append, List.filterMap_append, String.join_append, innerText, innerText]

@[simp] theorem innerText_ofText (s : String) : (ofText s).innerText = s := by
  simp [ofText, innerText_cons, Item.text?]

@[simp] theorem innerText_ofElement (tag : String) (attrs : List (String × String))
    (below : Forest) : (ofElement tag attrs below).innerText = below.innerText := by
  simp [ofElement, innerText_cons, Item.text?]

@[simp] theorem innerText_relabel (k : Nat) (f : Forest) :
    (f.relabel k).1.innerText = f.innerText := by
  induction f generalizing k with
  | nil => rfl
  | cons l i below next ihb ihn =>
    simp only [relabel, innerText_cons, ihb, ihn]

/-- The texts of the spans of a class, in document order. -/
def spanTexts (cls : String) (f : Forest) : List String :=
  (f.nodes.filter (·.hasClass "span" cls)).map (·.textContent)

end Forest

theorem Node.textContent_eq (n : Node) :
    n.textContent = n.item.text?.getD "" ++ n.below.innerText := by
  rw [textContent, descendants, Forest.walk_eq_nodes, List.filterMap_cons]
  cases n.item.text? <;> simp [Forest.innerText]

namespace Forest

variable {cls : String}

@[simp] theorem spanTexts_append (f g : Forest) :
    (f ++ g).spanTexts cls = f.spanTexts cls ++ g.spanTexts cls := by
  rw [spanTexts, nodes_append, List.filter_append, List.map_append, spanTexts, spanTexts]

theorem spanTexts_cons (l : Nat) (i : Item) (below next : Forest) :
    (cons l i below next).spanTexts cls =
      (if Node.hasClass ⟨l, i, below⟩ "span" cls then [i.text?.getD "" ++ below.innerText] else []) ++
        (below.spanTexts cls ++ next.spanTexts cls) := by
  rw [spanTexts, nodes, List.filter_cons, List.filter_append]
  split
  · rw [List.map_cons, List.map_append, Node.textContent_eq]
    rfl
  · rw [List.map_append]
    rfl

@[simp] theorem spanTexts_ofText (s : String) : (ofText s).spanTexts cls = [] := by
  rw [ofText, spanTexts_cons, if_neg (by simp [Node.hasClass, Node.isElement, Node.localName?,
    Item.element?])]
  rfl

@[simp] theorem spanTexts_relabel (k : Nat) (f : Forest) :
    (f.relabel k).1.spanTexts cls = f.spanTexts cls := by
  induction f generalizing k with
  | nil => rfl
  | cons l i below next ihb ihn =>
    simp only [relabel, spanTexts_cons, ihb, ihn, innerText_relabel]
    rfl

/-- A span with one class. -/
theorem spanTexts_span (cls' s : String) :
    (ofElement "span" [("class", cls')] (ofText s)).spanTexts cls =
      if cls' = cls then [s] else [] := by
  rw [ofElement, spanTexts_cons, spanTexts_ofText, innerText_ofText]
  simp [Node.hasClass, Node.isElement, Node.localName?, Node.attr?, Item.element?, Item.text?,
    spanTexts, nodes]

end Forest

/-! ### The text of a summary -/

/-- A cell as it is shown: without commas and without blanks at its ends. -/
def shownText (cell : Node) : String :=
  String.ofList (Text.trim (cell.textContent.toList.filter (· != ',')))

/-- The names and types of arguments as they are shown. -/
def pairTexts (names types : List Node) : List String :=
  List.zipWith (fun name type => shownText name ++ ": " ++ shownText type) names types

/-- The return type as it is shown. -/
def returnText (returns : List Char) : String :=
  if returns = [] then "nil" else String.ofList returns

/-- The text of a summary. -/
def summaryText (names types : List Node) (returns : List Char) : String :=
  "Arg types: " ++ ", ".intercalate (pairTexts names types) ++ nbsp ++ nbsp ++ "|" ++ nbsp ++ nbsp ++
    "returns " ++ returnText returns

theorem returnText_eq (returns : List Char) :
    (if String.ofList returns = "" then "nil" else String.ofList returns) = returnText returns := by
  rw [returnText]
  simp only [String.ofList_eq_empty_iff]

theorem innerText_argument (cls : String) (cell : Node) :
    (argument cls cell).innerText = shownText cell := by
  rw [argument, Forest.innerText_ofElement, Forest.innerText_ofText]
  rfl

theorem innerText_argumentPairs (names types : List Node) :
    (argumentPairs names types).innerText = ", ".intercalate (pairTexts names types) := by
  induction names generalizing types with
  | nil => cases types <;> rfl
  | cons name names ih =>
    cases types with
    | nil => rfl
    | cons type types =>
      have hpair : (argument "paramname" name ++ Forest.ofText ": " ++
          argument "paramtype" type).innerText = shownText name ++ ": " ++ shownText type := by
        rw [Forest.innerText_append, Forest.innerText_append, innerText_argument,
          innerText_argument, Forest.innerText_ofText]
      cases names with
      | nil => simp [argumentPairs, hpair, pairTexts]
      | cons name' names =>
        cases types with
        | nil => simp [argumentPairs, hpair, pairTexts]
        | cons type' types =>
          rw [argumentPairs, Forest.innerText_append, Forest.innerText_append, hpair, ih,
            Forest.innerText_ofText]
          simp only [pairTexts, List.zipWith_cons_cons, String.intercalate_cons_cons]

/-- **The text of a summary**: the pairs of names and types, divided by commas, and the return
type. -/
theorem innerText_summaryRow (width : Nat) (names types : List Node) (returns : List Char) :
    (summaryRow width names types (String.ofList returns)).innerText =
      summaryText names types returns := by
  have htitle : "Arg types:" ++ " " = "Arg types: " := by decide +kernel
  unfold summaryText
  simp only [summaryRow, Forest.innerText_ofElement, Forest.innerText_append,
    Forest.innerText_ofText, innerText_argumentPairs, returnText_eq, htitle]
  simp only [String.append_assoc]

theorem spanTexts_argumentPairs {cls : String} (hname : "paramname" ≠ cls)
    (htype : "paramtype" ≠ cls) (names types : List Node) :
    (argumentPairs names types).spanTexts cls = [] := by
  have hargument {cls' : String} (h : cls' ≠ cls) (cell : Node) :
      (argument cls' cell).spanTexts cls = [] := by
    rw [argument, Forest.spanTexts_span, if_neg h]
  have hpair (name type : Node) : (argument "paramname" name ++ Forest.ofText ": " ++
      argument "paramtype" type).spanTexts cls = [] := by
    simp only [Forest.spanTexts_append, hargument hname, hargument htype, Forest.spanTexts_ofText,
      List.append_nil]
  induction names generalizing types with
  | nil => cases types <;> rfl
  | cons name names ih =>
    cases types with
    | nil => rfl
    | cons type types =>
      cases names with
      | nil => exact hpair name type
      | cons name' names =>
        cases types with
        | nil => exact hpair name type
        | cons type' types =>
          rw [argumentPairs, Forest.spanTexts_append, Forest.spanTexts_append, hpair, ih,
            Forest.spanTexts_ofText]
          rfl

/-- **The return type in a summary** stands in the only span of its class. -/
theorem spanTexts_summaryRow (width : Nat) (names types : List Node) (returns : List Char) :
    (summaryRow width names types (String.ofList returns)).spanTexts "returntype" =
      [returnText returns] := by
  have helement (tag : String) (attrs : List (String × String)) (below : Forest)
      (htag : tag ≠ "span") : (Forest.ofElement tag attrs below).spanTexts "returntype" =
        below.spanTexts "returntype" := by
    rw [Forest.ofElement, Forest.spanTexts_cons, if_neg (by simp [Node.hasClass, Node.isElement,
      Node.localName?, Item.element?, htag])]
    exact List.append_nil _
  have hname : "paramname" ≠ "returntype" := by decide
  have htype : "paramtype" ≠ "returntype" := by decide
  rw [summaryRow, helement _ _ _ (by decide), helement _ _ _ (by decide)]
  simp only [Forest.spanTexts_append, Forest.spanTexts_span, Forest.spanTexts_ofText,
    spanTexts_argumentPairs hname htype, returnText_eq]
  rfl

/-! ### The row -/

/-- No cell of a summary is one of a signature. -/
theorem signatures_summaryRow (k width : Nat) (names types : List Node) (returns : String) :
    ((summaryRow width names types returns).relabel k).1.signatures = [] := by
  have hclass {tag : String} {attrs : List Attr} {l : Nat} {below : Forest}
      (h : (attrs.find? (·.name == "class")).map (·.value) ≠ some "memname") :
      ¬ Node.hasClass ⟨l, .element { name := tag, attrs := attrs }, below⟩ "td" "memname" =
        true := by
    simpa [Node.hasClass, Node.attr?, Item.element?] using fun _ => h
  obtain ⟨content, hcontent, hrow⟩ := exists_summaryRow_eq width names types returns
  simp only [hrow, Forest.ofElement, Forest.relabel, Forest.signatures_cons]
  rw [if_neg (hclass (by simp)), if_neg (hclass (by simp)), Forest.signatures_eq_nil fun n hn => ?_]
  · rfl
  · exact (hcontent.lacks (by decide)).relabel hn

/-- A row that shows a summary. -/
structure IsSummary (row : Node) (names types : List Node) (returns : List Char) : Prop where
  hasClass : row.hasClass "tr" "nofloat argline" = true
  text : row.textContent = summaryText names types returns
  returnType : row.below.spanTexts "returntype" = [returnText returns]
  lacks_tr : row.below.Lacks "tr"

/-- **A summary that was put into a page is one row.** -/
theorem exists_row (k width : Nat) (names types : List Node) (returns : List Char) :
    ∃ row : Node, ((summaryRow width names types (String.ofList returns)).relabel k).1 =
      row.toForest ∧ row.label = k ∧ IsSummary row names types returns := by
  have htext := innerText_summaryRow width names types returns
  have hspans := spanTexts_summaryRow width names types returns
  rw [← Forest.innerText_relabel k] at htext
  rw [← Forest.spanTexts_relabel k] at hspans
  obtain ⟨content, hcontent, hrow⟩ := exists_summaryRow_eq width names types
    (String.ofList returns)
  have hcell : (Forest.ofElement "td" [("colspan", toString width)] content).Made ["td", "span"] :=
    .element (by decide) (by simp [newAttributes]) (hcontent.mono (by simp))
  have hlacks : Forest.Lacks _ "tr" := hcell.lacks (by decide)
  rw [hrow, Forest.ofElement, Forest.relabel] at htext hspans ⊢
  rw [Forest.innerText_cons, Forest.relabel, Forest.innerText_nil, String.append_empty] at htext
  rw [Forest.spanTexts_cons, if_neg (by simp [Node.hasClass, Node.isElement, Node.localName?,
    Item.element?])] at hspans
  refine ⟨⟨k, _, _⟩, rfl, rfl, ?_, ?_, ?_, fun n hn => hlacks.relabel hn⟩
  · simp [Node.hasClass, Node.isElement, Node.localName?, Node.attr?, Item.element?]
  · rwa [Node.textContent_eq]
  · simpa [Forest.spanTexts, Forest.nodes, Forest.relabel] using hspans

end BindingDocs.Page
