import Netlab.Proofs.Yaml.Blocks
import Netlab.Proofs.Yaml.Lines
import Netlab.Yaml.View

/-!
# The document of a text in block style

From the tokens of a block its node is read (`Block.reads`).  So the document of a text is the node
that its outline stands for: `Outline.document_written`.
-/

namespace Netlab.Yaml

/-! ## from tokens to nodes -/

namespace Reader

variable (fuel : Nat) (r : Reader)

theorem readNode_scalar (block indentless bare : Bool) (text : String) (ts : List Token) :
    readNode (fuel + 1) block indentless (r.goTo (.scalar bare text :: ts))
      = .ok (.scalar none bare text, r.goTo ts) := by
  rw [readNode]
  rfl

theorem readNode_openBlockList (indentless : Bool) (ts : List Token) (nodes : List Node)
    (ts' : List Token) (h : readBlockItems fuel (r.goTo ts) = .ok (nodes, r.goTo ts')) :
    readNode (fuel + 1) true indentless (r.goTo (.openBlockList :: ts))
      = .ok (.list nodes, r.goTo ts') := by
  rw [readNode]
  simp only [goTo] at h
  simp [goTo, readProperties, meet, name, bind, Except.bind, pure, Except.pure, h]

theorem readNode_openBlockMap (indentless : Bool) (ts : List Token) (nodes : List (Node × Node))
    (ts' : List Token) (h : readBlockEntries fuel (r.goTo ts) = .ok (nodes, r.goTo ts')) :
    readNode (fuel + 1) true indentless (r.goTo (.openBlockMap :: ts))
      = .ok (.map nodes, r.goTo ts') := by
  rw [readNode]
  simp only [goTo] at h
  simp [goTo, readProperties, meet, name, bind, Except.bind, pure, Except.pure, h]

theorem readNode_entry (ts : List Token) (nodes : List Node) (ts' : List Token)
    (h : readIndentlessItems fuel (r.goTo (.entry :: ts)) = .ok (nodes, r.goTo ts')) :
    readNode (fuel + 1) true true (r.goTo (.entry :: ts)) = .ok (.list nodes, r.goTo ts') := by
  rw [readNode]
  simp only [goTo] at h
  simp [goTo, readProperties, meet, name, bind, Except.bind, pure, Except.pure, h]

theorem readOptional_absent (block indentless : Bool) (absent : List Token) (ts : List Token)
    (h : ∃ t ∈ ts.head?, t ∈ absent) :
    readOptional (fuel + 1) block indentless absent (r.goTo ts) = .ok (.empty, r.goTo ts) := by
  obtain ⟨t, ht, hmem⟩ := h
  have hat : (r.goTo ts).atAny absent = true := by
    rw [atAny, Option.any_eq_true]
    exact ⟨t, ht, List.contains_iff_mem.mpr hmem⟩
  rw [readOptional, if_pos hat]

theorem readOptional_present (block indentless : Bool) (absent : List Token) (t : Token)
    (ts : List Token) (h : t ∉ absent) :
    readOptional (fuel + 1) block indentless absent (r.goTo (t :: ts))
      = readNode fuel block indentless (r.goTo (t :: ts)) := by
  have hat : (r.goTo (t :: ts)).atAny absent = false := by
    rw [atAny, Bool.eq_false_iff]
    exact fun hat => h (List.contains_iff_mem.mp hat)
  rw [readOptional, hat, if_neg Bool.false_ne_true]

theorem readBlockItems_close (ts : List Token) :
    readBlockItems (fuel + 1) (r.goTo (.closeBlock :: ts)) = .ok ([], r.goTo ts) := by
  rw [readBlockItems]
  rfl

theorem readBlockItems_goTo (ts : List Token) :
    readBlockItems (fuel + 1) (r.goTo (.entry :: ts)) = do
      let (item, r) ← readOptional fuel true false [.entry, .closeBlock] (r.goTo ts)
      let (items, r) ← readBlockItems fuel r
      return (item :: items, r) := by
  rw [readBlockItems]
  rfl

theorem readBlockItems_entry (ts ts' ts'' : List Token) (node : Node) (nodes : List Node)
    (hnode : readOptional fuel true false [.entry, .closeBlock] (r.goTo ts)
      = .ok (node, r.goTo ts'))
    (hnodes : readBlockItems fuel (r.goTo ts') = .ok (nodes, r.goTo ts'')) :
    readBlockItems (fuel + 1) (r.goTo (.entry :: ts)) = .ok (node :: nodes, r.goTo ts'') := by
  rw [readBlockItems_goTo, hnode]
  simp only [bind, Except.bind, hnodes]
  rfl

theorem readIndentlessItems_end (ts : List Token) (h : ts.head? ≠ some .entry) :
    readIndentlessItems (fuel + 1) (r.goTo ts) = .ok ([], r.goTo ts) := by
  rw [readIndentlessItems]
  split
  · next ts' heq =>
    have hts : ts = .entry :: ts' := heq
    exact absurd (by rw [hts]; rfl) h
  · rfl

theorem readIndentlessItems_goTo (ts : List Token) :
    readIndentlessItems (fuel + 1) (r.goTo (.entry :: ts)) = do
      let (item, r) ← readOptional fuel true false [.entry, .key, .value, .closeBlock] (r.goTo ts)
      let (items, r) ← readIndentlessItems fuel r
      return (item :: items, r) := by
  rw [readIndentlessItems]
  rfl

theorem readIndentlessItems_entry (ts ts' ts'' : List Token) (node : Node) (nodes : List Node)
    (hnode : readOptional fuel true false [.entry, .key, .value, .closeBlock] (r.goTo ts)
      = .ok (node, r.goTo ts'))
    (hnodes : readIndentlessItems fuel (r.goTo ts') = .ok (nodes, r.goTo ts'')) :
    readIndentlessItems (fuel + 1) (r.goTo (.entry :: ts)) = .ok (node :: nodes, r.goTo ts'') := by
  rw [readIndentlessItems_goTo, hnode]
  simp only [bind, Except.bind, hnodes]
  rfl

theorem readBlockEntries_close (ts : List Token) :
    readBlockEntries (fuel + 1) (r.goTo (.closeBlock :: ts)) = .ok ([], r.goTo ts) := by
  rw [readBlockEntries]
  rfl

theorem readBlockEntries_goTo (ts : List Token) :
    readBlockEntries (fuel + 1) (r.goTo (.key :: ts)) = do
      let (key, r) ← readOptional fuel true true [.key, .value, .closeBlock] (r.goTo ts)
      let (value, r) ←
        match r.tokens with
        | .value :: ts => readOptional fuel true true [.key, .value, .closeBlock] (r.goTo ts)
        | _ => .ok (.empty, r)
      let (entries, r) ← readBlockEntries fuel r
      return ((key, value) :: entries, r) := by
  rw [readBlockEntries]
  rfl

/-- an entry whose key is read and has a value behind it -/
theorem readBlockEntries_value (ts ts' : List Token) (key : Node)
    (hkey : readOptional fuel true true [.key, .value, .closeBlock] (r.goTo ts)
      = .ok (key, r.goTo (.value :: ts'))) :
    readBlockEntries (fuel + 1) (r.goTo (.key :: ts)) = do
      let (value, r) ← readOptional fuel true true [.key, .value, .closeBlock] (r.goTo ts')
      let (entries, r) ← readBlockEntries fuel r
      return ((key, value) :: entries, r) := by
  rw [readBlockEntries_goTo, hkey]
  rfl

theorem readBlockEntries_key (k : Word) (ts ts' ts'' : List Token) (node : Node)
    (nodes : List (Node × Node))
    (hnode : readOptional (fuel + 2) true true [.key, .value, .closeBlock] (r.goTo ts)
      = .ok (node, r.goTo ts'))
    (hnodes : readBlockEntries (fuel + 2) (r.goTo ts') = .ok (nodes, r.goTo ts'')) :
    readBlockEntries (fuel + 3) (r.goTo (.key :: k.token :: .value :: ts))
      = .ok ((k.node, node) :: nodes, r.goTo ts'') := by
  have hkey : readOptional (fuel + 2) true true [.key, .value, .closeBlock]
      (r.goTo (k.token :: .value :: ts)) = .ok (k.node, r.goTo (.value :: ts)) := by
    rw [readOptional_present _ _ _ _ _ _ _ (by simp [Word.token]), Word.token, readNode_scalar]
    rfl
  rw [readBlockEntries_value (fuel + 2) r _ _ _ hkey, hnode]
  simp only [bind, Except.bind, hnodes]
  rfl

end Reader

theorem Block.tokens_head (b : Block) :
    ∃ t ts, b.tokens = t :: ts ∧ t ∉ [.entry, .key, .value, .closeBlock] := by
  cases b with
  | scalar s trail => exact ⟨_, _, rfl, by simp [Scalar.token]⟩
  | list items => exact ⟨_, _, rfl, by decide⟩
  | map entries => exact ⟨_, _, rfl, by decide⟩

theorem Items.tokens_head (items : Items) : ∃ ts, items.tokens = .entry :: ts := by
  cases items <;> exact ⟨_, rfl⟩

theorem Entries.tokens_head (entries : Entries) : ∃ ts, entries.tokens = .key :: ts := by
  cases entries <;> exact ⟨_, rfl⟩

section
variable (r : Reader)

mutual

/-- the node of a block is read from its tokens, in at most three steps for each -/
theorem Block.reads (b : Block) (indentless : Bool) (rest : List Token) (fuel : Nat)
    (hfuel : 3 * b.tokens.length ≤ fuel) :
    Reader.readNode fuel true indentless (r.goTo (b.tokens ++ rest))
      = .ok (b.node, r.goTo rest) := by
  cases b with
  | scalar s trail =>
    obtain ⟨fuel, rfl⟩ : ∃ f, fuel = f + 1 := ⟨fuel - 1, by simp [Block.tokens] at hfuel; omega⟩
    exact r.readNode_scalar fuel true indentless s.isBare _ rest
  | list items =>
    rw [Block.tokens, List.length_cons, List.length_append, List.length_singleton] at hfuel
    obtain ⟨fuel, rfl⟩ : ∃ f, fuel = f + 1 := ⟨fuel - 1, by omega⟩
    rw [Block.tokens, List.cons_append, List.append_assoc, List.singleton_append]
    exact r.readNode_openBlockList fuel indentless _ _ _ (items.reads rest fuel (by omega))
  | map entries =>
    rw [Block.tokens, List.length_cons, List.length_append, List.length_singleton] at hfuel
    obtain ⟨fuel, rfl⟩ : ∃ f, fuel = f + 1 := ⟨fuel - 1, by omega⟩
    rw [Block.tokens, List.cons_append, List.append_assoc, List.singleton_append]
    exact r.readNode_openBlockMap fuel indentless _ _ _ (entries.reads rest fuel (by omega))

theorem Items.reads (items : Items) (rest : List Token) (fuel : Nat)
    (hfuel : 3 * items.tokens.length + 1 ≤ fuel) :
    Reader.readBlockItems fuel (r.goTo (items.tokens ++ .closeBlock :: rest))
      = .ok (items.nodes, r.goTo rest) := by
  cases items with
  | last item =>
    rw [Items.tokens, List.length_cons] at hfuel
    obtain ⟨fuel, rfl⟩ : ∃ f, fuel = f + 2 := ⟨fuel - 2, by omega⟩
    rw [Items.tokens, List.cons_append]
    exact r.readBlockItems_entry (fuel + 1) _ _ _ _ _ (item.reads false _ (by decide) _
      ⟨.closeBlock, rfl, by decide⟩ _ (by omega)) (r.readBlockItems_close fuel rest)
  | more item items =>
    rw [Items.tokens, List.length_cons, List.length_append] at hfuel
    obtain ⟨fuel, rfl⟩ : ∃ f, fuel = f + 1 := ⟨fuel - 1, by omega⟩
    obtain ⟨ts, hts⟩ := items.tokens_head
    rw [Items.tokens, List.cons_append, List.append_assoc]
    exact r.readBlockItems_entry fuel _ _ _ _ _ (item.reads false _ (by decide) _
      ⟨.entry, by rw [hts]; rfl, by decide⟩ _ (by omega)) (items.reads rest fuel (by omega))

theorem Items.readsLevel (items : Items) (rest : List Token) (hrest : ∃ t ∈ rest.head?,
    t ∈ [.key, .value, .closeBlock]) (fuel : Nat) (hfuel : 3 * items.tokens.length + 1 ≤ fuel) :
    Reader.readIndentlessItems fuel (r.goTo (items.tokens ++ rest))
      = .ok (items.nodes, r.goTo rest) := by
  cases items with
  | last item =>
    rw [Items.tokens, List.length_cons] at hfuel
    obtain ⟨fuel, rfl⟩ : ∃ f, fuel = f + 2 := ⟨fuel - 2, by omega⟩
    rw [Items.tokens, List.cons_append]
    obtain ⟨t, ht, hmem⟩ := hrest
    refine r.readIndentlessItems_entry (fuel + 1) _ _ _ _ _ (item.reads false _ (by decide) _
      ⟨t, ht, List.mem_cons_of_mem _ hmem⟩ _ (by omega)) (r.readIndentlessItems_end fuel rest ?_)
    -- a list at the column of its key has no mark at its end: it ends where no dash follows
    rw [Option.mem_def.mp ht]
    rintro ⟨⟩
    revert hmem
    decide
  | more item items =>
    rw [Items.tokens, List.length_cons, List.length_append] at hfuel
    obtain ⟨fuel, rfl⟩ : ∃ f, fuel = f + 1 := ⟨fuel - 1, by omega⟩
    obtain ⟨ts, hts⟩ := items.tokens_head
    rw [Items.tokens, List.cons_append, List.append_assoc]
    exact r.readIndentlessItems_entry fuel _ _ _ _ _
      (item.reads false _ (by decide) _ ⟨.entry, by rw [hts]; rfl, by decide⟩ _ (by omega))
      (items.readsLevel rest hrest fuel (by omega))

theorem Item.reads (item : Item) (indentless : Bool) (absent : List Token)
    (habsent : absent ⊆ [.entry, .key, .value, .closeBlock]) (rest : List Token)
    (hrest : ∃ t ∈ rest.head?, t ∈ absent) (fuel : Nat)
    (hfuel : 3 * item.tokens.length + 1 ≤ fuel) :
    Reader.readOptional fuel true indentless absent (r.goTo (item.tokens ++ rest))
      = .ok (item.node, r.goTo rest) := by
  obtain ⟨fuel, rfl⟩ : ∃ f, fuel = f + 1 := ⟨fuel - 1, by omega⟩
  have hblock (b : Block) (hfuel : 3 * b.tokens.length + 1 ≤ fuel + 1)
      (hreads : Reader.readNode fuel true indentless (r.goTo (b.tokens ++ rest))
        = .ok (b.node, r.goTo rest)) :
      Reader.readOptional (fuel + 1) true indentless absent (r.goTo (b.tokens ++ rest))
        = .ok (b.node, r.goTo rest) := by
    obtain ⟨t, ts, hts, ht⟩ := b.tokens_head
    rw [← hreads, hts, List.cons_append]
    exact r.readOptional_present fuel true indentless absent t _ fun hmem => ht (habsent hmem)
  cases item with
  | empty trail => exact r.readOptional_absent fuel true indentless absent rest hrest
  | beside gap b =>
    exact hblock b hfuel (b.reads indentless rest fuel (Nat.le_of_succ_le_succ hfuel))
  | under trail offset b =>
    exact hblock b hfuel (b.reads indentless rest fuel (Nat.le_of_succ_le_succ hfuel))

theorem Entries.reads (entries : Entries) (rest : List Token) (fuel : Nat)
    (hfuel : 3 * entries.tokens.length + 1 ≤ fuel) :
    Reader.readBlockEntries fuel (r.goTo (entries.tokens ++ .closeBlock :: rest))
      = .ok (entries.nodes, r.goTo rest) := by
  cases entries with
  | last key value =>
    simp only [Entries.tokens, List.length_cons] at hfuel
    obtain ⟨fuel, rfl⟩ : ∃ f, fuel = f + 3 := ⟨fuel - 3, by omega⟩
    exact r.readBlockEntries_key fuel key _ _ _ _ _ (value.reads _
      ⟨.closeBlock, rfl, by decide⟩ _ (by omega)) (r.readBlockEntries_close (fuel + 1) rest)
  | more key value entries =>
    simp only [Entries.tokens, List.length_cons, List.length_append] at hfuel
    obtain ⟨fuel, rfl⟩ : ∃ f, fuel = f + 3 := ⟨fuel - 3, by omega⟩
    obtain ⟨ts, hts⟩ := entries.tokens_head
    simp only [Entries.tokens, List.cons_append, List.append_assoc]
    exact r.readBlockEntries_key fuel key _ _ _ _ _ (value.reads _
      ⟨.key, by rw [hts]; rfl, by decide⟩ _ (by omega)) (entries.reads rest _ (by omega))

theorem Value.reads (value : Value) (rest : List Token)
    (hrest : ∃ t ∈ rest.head?, t ∈ [.key, .value, .closeBlock]) (fuel : Nat)
    (hfuel : 3 * value.tokens.length + 3 ≤ fuel) :
    Reader.readOptional fuel true true [.key, .value, .closeBlock] (r.goTo (value.tokens ++ rest))
      = .ok (value.node, r.goTo rest) := by
  obtain ⟨fuel, rfl⟩ : ∃ f, fuel = f + 3 := ⟨fuel - 3, by omega⟩
  cases value with
  | empty trail => exact r.readOptional_absent (fuel + 2) true true _ rest hrest
  | beside gap s trail =>
    rw [Value.tokens, List.singleton_append,
      r.readOptional_present _ _ _ _ _ _ (by simp [Scalar.token])]
    exact r.readNode_scalar (fuel + 1) true true s.isBare _ rest
  | under trail offset b =>
    rw [Value.tokens] at hfuel ⊢
    have hreads := b.reads true rest (fuel + 2) (by omega)
    obtain ⟨t, ts, hts, ht⟩ := b.tokens_head
    rw [Value.node, ← hreads, hts, List.cons_append]
    exact r.readOptional_present (fuel + 2) true true _ t _ fun hmem =>
      ht (List.mem_cons_of_mem _ hmem)
  | level trail items =>
    rw [Value.tokens] at hfuel ⊢
    obtain ⟨ts, hts⟩ := items.tokens_head
    have hreads := items.readsLevel rest hrest (fuel + 1) (by omega)
    rw [hts, List.cons_append] at hreads ⊢
    rw [r.readOptional_present _ _ _ _ _ _ (by decide)]
    exact r.readNode_entry (fuel + 1) _ _ _ hreads

end

end

/-! ## documents -/

namespace Outline

def tokens (o : Outline) : List Token :=
  (o.mark.map fun _ => Token.documentStart).toList ++ o.block.elim [] Block.tokens

/-- the lines of the block add its tokens to those of a document that has just begun -/
theorem adds_block (o : Outline) (ts : List Token) : Adds ⟨ts, []⟩ ⟨ts, []⟩ 0
    (o.block.elim [] fun b => b.lines ⟨o.indent, []⟩) (o.block.elim [] Block.tokens) := by
  cases o.block with
  | none =>
    refine ⟨?_, fun _ _ => trivial⟩
    rw [Option.elim_none, Option.elim_none, Nest.push, List.append_nil]
    exact Nest.closeFrom_nil 0 ts
  | some b =>
    have hnone (bound : Nat) : ∀ i ∈ (Nest.lead ⟨ts, []⟩ ⟨o.indent, []⟩).indents.head?, i < bound :=
      fun i hi => absurd hi (Option.not_mem_none i)
    exact b.adds ⟨o.indent, []⟩ ⟨ts, []⟩ (hnone _) 0 (hnone 0) (Nat.zero_le _)

theorem adds (o : Outline) : Adds {} {} 0 o.lines o.tokens := by
  have hblock := o.adds_block
  rw [lines, tokens]
  cases o.mark with
  | none => exact hblock []
  | some trail => exact Adds.cons [.documentStart] (fun _ => rfl) (hblock [.documentStart])

/-- a document ends where its root does -/
theorem document_of_root (ts : List Token) (root : Node)
    (hroot : Reader.readRoot { tokens := ts, handles := defaultHandles }
      = .ok (root, { tokens := [], handles := defaultHandles })) :
    (do
      let (root, r) ← Reader.readRoot { tokens := ts, handles := defaultHandles }
      if (r.tokens.dropWhile (· = .documentEnd)).isEmpty then
        return { root, anchors := r.anchors }
      else throw .moreDocuments) = Except.ok { root := root : Document } := by
  rw [hroot]
  rfl

/-- a document of one block, with a mark in front or without -/
theorem ofTokens_block (b : Block) : Document.ofTokens b.tokens = .ok { root := b.node } ∧
    Document.ofTokens (.documentStart :: b.tokens) = .ok { root := b.node } := by
  have hreads := b.reads { tokens := [], handles := defaultHandles } false []
    (3 * b.tokens.length + 3) (by omega)
  rw [List.append_nil] at hreads
  have hroot : Reader.readRoot { tokens := b.tokens, handles := defaultHandles }
      = .ok (b.node, { tokens := [], handles := defaultHandles }) := hreads
  constructor <;> rw [← document_of_root _ _ hroot] <;> cases b <;> rfl

/-- **A text in block style is read as its outline.** -/
theorem document_written (o : Outline) (text : String) (h : Written o.lines text.toList) :
    document text = .ok { root := o.root } := by
  have hadds := o.adds
  have htokens : Yaml.tokens text = .ok o.tokens := by
    rw [tokens_written h (hadds.fits [] nofun), hadds.closes]
    rfl
  rw [document, htokens]
  show Document.ofTokens o.tokens = _
  rw [tokens, root]
  cases o.mark with
  | none =>
    cases o.block with
    | none => rfl
    | some b => exact (ofTokens_block b).1
  | some trail =>
    cases o.block with
    | none => rfl
    | some b => exact (ofTokens_block b).2

end Outline

end Netlab.Yaml
