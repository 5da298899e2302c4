import LoadReplay.Json.Reader
import LoadReplay.Proofs.JsonTokens

/-!
# Written values are read again

The tokens of a value are read one after another, since every number in it is followed by a mark or
by the end (`lexes_value`).  The machine that takes them comes from the beginning of the value to
its end with the open lists and records around it unchanged (`run_value`); so it is the value that
it has read when the tokens are over.

Both inductions follow the constructors of values; the items of a list and the entries of a record
have a statement of their own in each.

Main statement: `read_chars`.
-/

namespace LoadReplay.Json

/-- Whether the leaves of a value are read from their own texts. -/
def Value.Legible (v : Value) : Prop := ∀ t ∈ v.tokens, t.ReadsBack

/-- The tokens of more items are read back exactly if the items are legible. -/
theorem readsBack_moreItems {l : List Value} :
    (∀ t ∈ moreItems l, t.ReadsBack) ↔ ∀ v ∈ l, v.Legible := by
  induction l with
  | nil => simp [moreItems]
  | cons v l ih => simp [moreItems, or_imp, forall_and, ih, Value.Legible]

/-- A list is legible exactly if all its items are. -/
theorem legible_list {l : List Value} : (Value.list l).Legible ↔ ∀ v ∈ l, v.Legible := by
  cases l with
  | nil => simp [Value.Legible, Value.tokens]
  | cons v l =>
    rw [List.forall_mem_cons, ← readsBack_moreItems]
    simp [Value.Legible, Value.tokens, or_imp, forall_and]

/-- The tokens of more entries are read back exactly if their names and values are legible. -/
theorem readsBack_moreEntries {l : List (Text × Value)} :
    (∀ t ∈ moreEntries l, t.ReadsBack) ↔ ∀ e ∈ l, e.1.isSome ∧ e.2.Legible := by
  induction l with
  | nil => simp [moreEntries]
  | cons e l ih =>
    rw [List.forall_mem_cons, ← ih]
    simp [moreEntries, or_imp, forall_and, Value.Legible, and_assoc]

/-- A record is legible exactly if all its names and values are. -/
theorem legible_record {l : List (Text × Value)} :
    (Value.record l).Legible ↔ ∀ e ∈ l, e.1.isSome ∧ e.2.Legible := by
  cases l with
  | nil => simp [Value.Legible, Value.tokens]
  | cons e l =>
    rw [List.forall_mem_cons, ← readsBack_moreEntries]
    simp [Value.Legible, Value.tokens, or_imp, forall_and, and_assoc]

/-! ## The tokens of a value -/

/-- The text of some tokens. -/
def written (ts : List Token) : List Char := ts.flatMap Token.chars

/-- Tokens are written one behind the other. -/
theorem written_append (ts ts' : List Token) : written (ts ++ ts') = written ts ++ written ts' :=
  List.flatMap_append

/-- The first token stands in front. -/
theorem written_cons (t : Token) (ts : List Token) : written (t :: ts) = t.chars ++ written ts :=
  List.flatMap_cons

/-- Whether some tokens that are written in front of a text are the first ones read from both. -/
def Lexes (ts : List Token) (rest : List Char) : Prop :=
  lex (written ts ++ rest) = (lex rest).map (ts ++ ·)

/-- Nothing was written, and nothing is read. -/
theorem lexes_nil (rest : List Char) : Lexes [] rest := by
  unfold Lexes
  exact Option.map_id'.symm

/-- One more token in front is read, if it ends before the next one. -/
theorem Lexes.cons {t : Token} {ts : List Token} {rest : List Char} (h : Lexes ts rest)
    (ht : t.ReadsBack) (hend : t.isClosed = true ∨ Ends (written ts ++ rest)) :
    Lexes (t :: ts) rest := by
  unfold Lexes at h ⊢
  rw [written_cons, List.append_assoc, lex_token ht hend, h, Option.map_map]
  rfl

/-- Tokens behind others are read if each part is. -/
theorem Lexes.append {ts ts' : List Token} {rest : List Char} (h : Lexes ts (written ts' ++ rest))
    (h' : Lexes ts' rest) : Lexes (ts ++ ts') rest := by
  unfold Lexes at h h' ⊢
  rw [written_append, List.append_assoc, h, h', Option.map_map]
  simp only [Function.comp_def, List.append_assoc]

/-- One token is read from its text. -/
theorem lexes_singleton {t : Token} {rest : List Char} (ht : t.ReadsBack)
    (hend : t.isClosed = true ∨ Ends rest) : Lexes [t] rest := (lexes_nil rest).cons ht hend

/-- A number ends in front of further items. -/
theorem ends_moreItems (l : List Value) {rest : List Char} (h : Ends rest) :
    Ends (written (moreItems l) ++ rest) := by
  cases l with
  | nil => exact h
  | cons v l => exact ends_cons (c := ',') _ rfl

/-- What follows a value ends a number in it. -/
theorem ends_moreEntries (l : List (Text × Value)) {rest : List Char} (h : Ends rest) :
    Ends (written (moreEntries l) ++ rest) := by
  cases l with
  | nil => exact h
  | cons e l => exact ends_cons (c := ',') _ rfl

mutual

/-- The tokens of a value are read from its text. -/
theorem lexes_value : ∀ (v : Value) {rest : List Char}, v.Legible → Ends rest →
    Lexes v.tokens rest
  | .null, _, h, _ => lexes_singleton (h _ List.mem_cons_self) (.inl rfl)
  | .truth _, _, h, _ => lexes_singleton (h _ List.mem_cons_self) (.inl rfl)
  | .number _, _, h, hrest => lexes_singleton (h _ List.mem_cons_self) (.inr hrest)
  | .text _, _, h, _ => lexes_singleton (h _ List.mem_cons_self) (.inl rfl)
  | .list [], _, h, _ =>
    (lexes_singleton (h _ (List.mem_cons_of_mem _ List.mem_cons_self)) (.inl rfl)).cons
      (h _ List.mem_cons_self) (.inl rfl)
  | .list (v :: l), rest, h, _ => by
    obtain ⟨hv, hl⟩ := List.forall_mem_cons.1 (legible_list.1 h)
    -- From the end: the bracket, the further items in front of it, the first one in front of them.
    have hclose : Lexes [.closeList] rest := lexes_singleton trivial (.inl rfl)
    have hends : Ends (written [.closeList] ++ rest) := ends_cons (c := ']') _ rfl
    have hmore := lexes_moreItems l hl hends
    have hfirst := lexes_value v hv (ends_moreItems l hends)
    exact ((hfirst.cons (t := .openList) trivial (.inl rfl)).append hmore).append hclose
  | .record [], _, h, _ =>
    (lexes_singleton (h _ (List.mem_cons_of_mem _ List.mem_cons_self)) (.inl rfl)).cons
      (h _ List.mem_cons_self) (.inl rfl)
  | .record ((k, v) :: l), rest, h, _ => by
    obtain ⟨⟨hk, hv⟩, hl⟩ := List.forall_mem_cons.1 (legible_record.1 h)
    have hclose : Lexes [.closeRecord] rest := lexes_singleton trivial (.inl rfl)
    have hends : Ends (written [.closeRecord] ++ rest) := ends_cons (c := '\x7d') _ rfl
    have hmore := lexes_moreEntries l hl hends
    have hfirst := lexes_value v hv (ends_moreEntries l hends)
    have hkey := (hfirst.cons (t := .colon) trivial (.inl rfl)).cons (t := .text k) hk (.inl rfl)
    exact ((hkey.cons (t := .openRecord) trivial (.inl rfl)).append hmore).append hclose

/-- The tokens of further items are read from their text. -/
theorem lexes_moreItems : ∀ (l : List Value) {rest : List Char},
    (∀ v ∈ l, v.Legible) → Ends rest → Lexes (moreItems l) rest
  | [], rest, _, _ => lexes_nil rest
  | v :: l, _, h, hrest => by
    obtain ⟨hv, hl⟩ := List.forall_mem_cons.1 h
    have hmore := lexes_moreItems l hl hrest
    have hfirst := lexes_value v hv (ends_moreItems l hrest)
    exact (hfirst.cons (t := .comma) trivial (.inl rfl)).append hmore

/-- The tokens of further entries are read from their text. -/
theorem lexes_moreEntries : ∀ (l : List (Text × Value)) {rest : List Char},
    (∀ e ∈ l, e.1.isSome ∧ e.2.Legible) → Ends rest → Lexes (moreEntries l) rest
  | [], rest, _, _ => lexes_nil rest
  | (k, v) :: l, _, h, hrest => by
    obtain ⟨⟨hk, hv⟩, hl⟩ := List.forall_mem_cons.1 h
    have hmore := lexes_moreEntries l hl hrest
    have hfirst := lexes_value v hv (ends_moreEntries l hrest)
    have hkey := (hfirst.cons (t := .colon) trivial (.inl rfl)).cons (t := .text k) hk (.inl rfl)
    exact (hkey.cons (t := .comma) trivial (.inl rfl)).append hmore

end

/-- What is written of a legible value are its tokens. -/
theorem lex_chars {v : Value} (h : v.Legible) : lex v.chars = some v.tokens := by
  have hlexes : lex (written v.tokens ++ []) = (lex []).map (v.tokens ++ ·) :=
    lexes_value v h ends_nil
  rw [List.append_nil, lex, Option.map_some, List.append_nil] at hlexes
  exact hlexes

/-- No value holds a line break. -/
theorem newline_not_mem_chars_value {v : Value} (h : v.Legible) : '\n' ∉ v.chars := by
  intro hmem
  obtain ⟨t, ht, hc⟩ := List.mem_flatMap.1 hmem
  exact newline_not_mem_chars (h t ht) hc

/-! ## The machine -/

/-- The machine behind some tokens. -/
def run (ts : List Token) (m : Machine) : Option Machine := ts.foldlM Machine.step m

/-- Tokens are taken one after another. -/
theorem run_cons (t : Token) (ts : List Token) (m : Machine) :
    run (t :: ts) m = (m.step t).bind (run ts) := List.foldlM_cons

/-- Some tokens are taken, and then the others. -/
theorem run_append (ts ts' : List Token) (m : Machine) :
    run (ts ++ ts') m = (run ts m).bind (run ts') := List.foldlM_append

/-- The first token of a value ends nothing that is open. -/
theorem exists_tokens_cons (v : Value) :
    ∃ t ts, v.tokens = t :: ts ∧ ∀ stack, Machine.close stack t = none := by
  cases v with
  | null => exact ⟨_, _, rfl, fun _ => rfl⟩
  | truth b => exact ⟨_, _, rfl, fun _ => rfl⟩
  | number n => exact ⟨_, _, rfl, fun _ => rfl⟩
  | text t => exact ⟨_, _, rfl, fun _ => rfl⟩
  | list l => cases l <;> exact ⟨_, _, rfl, fun _ => rfl⟩
  | record l => cases l <;> exact ⟨_, _, rfl, fun _ => rfl⟩

/-- Where an item or the end may come, a value is taken for an item. -/
theorem run_itemOrEnd (v : Value) (stack : List Frame) :
    run v.tokens ⟨stack, .itemOrEnd⟩ = run v.tokens ⟨stack, .value⟩ := by
  obtain ⟨t, ts, htokens, hclose⟩ := exists_tokens_cons v
  have hstep : Machine.step ⟨stack, .itemOrEnd⟩ t = Machine.step ⟨stack, .value⟩ t := by
    change (Machine.close stack t).or (Machine.begin stack t) = Machine.begin stack t
    rw [hclose, Option.none_or]
  rw [htokens, run_cons, run_cons, hstep]

mutual

/-- The machine takes the tokens of a value for this value, whatever is open around it. -/
theorem run_value : ∀ (v : Value) (stack : List Frame),
    run v.tokens ⟨stack, .value⟩ = some (Machine.finish v stack)
  | .null, _ => rfl
  | .truth _, _ => rfl
  | .number _, _ => rfl
  | .text _, _ => rfl
  | .list [], _ => rfl
  | .list (v :: l), stack => by
    have hopen : Machine.step ⟨stack, .value⟩ .openList
        = some ⟨.list [] :: stack, .itemOrEnd⟩ := rfl
    -- The first item is taken in a state of its own, in which the list might end as well.
    have hfirst : run v.tokens ⟨.list [] :: stack, .itemOrEnd⟩
        = some ⟨.list [v] :: stack, .commaOrEnd⟩ := by
      rw [run_itemOrEnd, run_value v]
      rfl
    have hclose : run [.closeList] ⟨.list (l.reverse ++ [v]) :: stack, .commaOrEnd⟩
        = some (Machine.finish (.list (l.reverse ++ [v]).reverse) stack) := rfl
    rw [Value.tokens, run_append, run_append, run_cons, hopen, Option.bind_some, hfirst,
      Option.bind_some, run_moreItems l, Option.bind_some, hclose, List.reverse_append,
      List.reverse_reverse, List.reverse_singleton, List.singleton_append]
  | .record [], _ => rfl
  | .record ((k, v) :: l), stack => by
    have hopen : run [.openRecord, .text k, .colon] ⟨stack, .value⟩
        = some ⟨.record [] k :: stack, .value⟩ := rfl
    have hfirst : run v.tokens ⟨.record [] k :: stack, .value⟩
        = some ⟨.record [(k, v)] none :: stack, .commaOrEnd⟩ := run_value v _
    have hclose : run [.closeRecord] ⟨.record (l.reverse ++ [(k, v)]) none :: stack, .commaOrEnd⟩
        = some (Machine.finish (.record (l.reverse ++ [(k, v)]).reverse) stack) := rfl
    have htokens : (Value.record ((k, v) :: l)).tokens
        = ([.openRecord, .text k, .colon] ++ v.tokens) ++ moreEntries l ++ [.closeRecord] := rfl
    rw [htokens, run_append, run_append, run_append, hopen, Option.bind_some, hfirst,
      Option.bind_some, run_moreEntries l, Option.bind_some, hclose, List.reverse_append,
      List.reverse_reverse, List.reverse_singleton, List.singleton_append]

/-- Further items are added to the innermost list. -/
theorem run_moreItems : ∀ (l items : List Value) (stack : List Frame),
    run (moreItems l) ⟨.list items :: stack, .commaOrEnd⟩
      = some ⟨.list (l.reverse ++ items) :: stack, .commaOrEnd⟩
  | [], _, _ => rfl
  | v :: l, items, stack => by
    have hcomma : Machine.step ⟨.list items :: stack, .commaOrEnd⟩ .comma
        = some ⟨.list items :: stack, .value⟩ := rfl
    have hitem : run v.tokens ⟨.list items :: stack, .value⟩
        = some ⟨.list (v :: items) :: stack, .commaOrEnd⟩ := run_value v _
    rw [moreItems, run_append, run_cons, hcomma, Option.bind_some, hitem, Option.bind_some,
      run_moreItems l, List.reverse_cons, List.append_assoc, List.singleton_append]

/-- Further entries are added to the innermost record. -/
theorem run_moreEntries : ∀ (l entries : List (Text × Value)) (stack : List Frame),
    run (moreEntries l) ⟨.record entries none :: stack, .commaOrEnd⟩
      = some ⟨.record (l.reverse ++ entries) none :: stack, .commaOrEnd⟩
  | [], _, _ => rfl
  | (k, v) :: l, entries, stack => by
    have hkey : run [.comma, .text k, .colon] ⟨.record entries none :: stack, .commaOrEnd⟩
        = some ⟨.record entries k :: stack, .value⟩ := rfl
    have hvalue : run v.tokens ⟨.record entries k :: stack, .value⟩
        = some ⟨.record ((k, v) :: entries) none :: stack, .commaOrEnd⟩ := run_value v _
    have htokens : moreEntries ((k, v) :: l)
        = ([.comma, .text k, .colon] ++ v.tokens) ++ moreEntries l := rfl
    rw [htokens, run_append, run_append, hkey, Option.bind_some, hvalue, Option.bind_some,
      run_moreEntries l, List.reverse_cons, List.append_assoc, List.singleton_append]

end

/-- A value whose leaves are read from their own texts is read from its text. -/
theorem read_chars {v : Value} (h : v.Legible) : read v.chars = some v := by
  have hrun : v.tokens.foldlM Machine.step Machine.start = some ⟨[], .nothing v⟩ := run_value v []
  rw [read, lex_chars h, Option.bind_some, Value.ofTokens?, hrun]

end LoadReplay.Json
