import Dalvik.Json.Parser
import Dalvik.Proofs.JsonLexing

namespace Dalvik

namespace Json

theorem apart_cons {token : Token} {tokens : List Token} (other : token.isNumber = false)
    (apart : tokens.IsChain Token.Apart) : (token :: tokens).IsChain Token.Apart := by
  refine List.isChain_cons.mpr ⟨?_, apart⟩
  intro next _ number
  exact absurd number (Bool.eq_false_iff.mp other)

theorem apart_append_cons {token : Token} {first second : List Token} (other : token.isNumber = false)
    (apart : first.IsChain Token.Apart) (apartLater : second.IsChain Token.Apart) :
    (first ++ token :: second).IsChain Token.Apart := by
  refine apart.append (apart_cons other apartLater) ?_
  rintro _ - _ ⟨⟩ -
  exact other

mutual

/-- Punctuation stands between any two numbers of a tree. -/
theorem apart_tokens : (j : Json) → j.tokens.IsChain Token.Apart
  | .null | .bool _ | .number _ | .string _ => by
    rw [tokens]
    exact .singleton _
  | .array items => by
    rw [tokens]
    exact apart_cons rfl (apart_append_cons rfl (apart_itemTokens items) .nil)
  | .object members => by
    rw [tokens]
    exact apart_cons rfl (apart_append_cons rfl (apart_memberTokens members) .nil)

theorem apart_itemTokens : (items : List Json) → (itemTokens items).IsChain Token.Apart
  | [] => .nil
  | [item] => apart_tokens item
  | item :: next :: items => apart_append_cons rfl (apart_tokens item) (apart_itemTokens (next :: items))

theorem apart_memberTokens : (members : List (Option String × Json)) → (memberTokens members).IsChain Token.Apart
  | [] => .nil
  | [(_, value)] => apart_cons rfl (apart_cons rfl (apart_tokens value))
  | (_, value) :: next :: members =>
    apart_cons rfl (apart_cons rfl
      (apart_append_cons rfl (apart_tokens value) (apart_memberTokens (next :: members))))

end

theorem foldlM_cons_of_step {state next : State} {token : Token} (run : step state token = some next)
    (rest : List Token) : (token :: rest).foldlM step state = rest.foldlM step next := by
  rw [List.foldlM_cons, run]
  rfl

/-- No value starts with the end of an array, so the first item is read like those after a comma. -/
theorem foldlM_firstItem (item : Json) (items : List Json) (stack : List Frame) (rest : List Token) :
    (itemTokens (item :: items) ++ rest).foldlM step ⟨stack, .firstItem⟩ =
      (itemTokens (item :: items) ++ rest).foldlM step ⟨.array [] :: stack, .value⟩ := by
  cases items <;> cases item <;> rfl

theorem foldlM_firstMember (member : Option String × Json) (members : List (Option String × Json))
    (stack : List Frame) (rest : List Token) :
    (memberTokens (member :: members) ++ rest).foldlM step ⟨stack, .firstMember⟩ =
      (memberTokens (member :: members) ++ rest).foldlM step ⟨stack, .key []⟩ := by
  cases members <;> rfl

mutual

/-- The tokens of a tree are read as that tree, and leave the frames around it as they are. -/
theorem foldlM_tokens : (j : Json) → (stack : List Frame) → (rest : List Token) →
    (j.tokens ++ rest).foldlM step ⟨stack, .value⟩ = rest.foldlM step ⟨stack, .after j⟩
  | .null, _, rest | .bool _, _, rest | .number _, _, rest | .string _, _, rest => by
    rw [tokens]
    exact foldlM_cons_of_step rfl rest
  | .array [], _, rest => by
    rw [tokens, itemTokens]
    exact (foldlM_cons_of_step rfl _).trans (foldlM_cons_of_step rfl rest)
  | .array (item :: items), stack, rest => by
    rw [tokens, List.cons_append, List.append_assoc, foldlM_cons_of_step rfl, foldlM_firstItem]
    exact foldlM_itemTokens (item :: items) (List.cons_ne_nil item items) [] stack rest
  | .object [], _, rest => by
    rw [tokens, memberTokens]
    exact (foldlM_cons_of_step rfl _).trans (foldlM_cons_of_step rfl rest)
  | .object (member :: members), stack, rest => by
    rw [tokens, List.cons_append, List.append_assoc, foldlM_cons_of_step rfl, foldlM_firstMember]
    exact foldlM_memberTokens (member :: members) (List.cons_ne_nil member members) [] stack rest

-- The empty list is left out: what ends an empty array is read in another phase.
theorem foldlM_itemTokens : (items : List Json) → items ≠ [] → (before : List Json) → (stack : List Frame) →
    (rest : List Token) → (itemTokens items ++ .arrayEnd :: rest).foldlM step ⟨.array before :: stack, .value⟩ =
      rest.foldlM step ⟨stack, .after (.array (before.reverse ++ items))⟩
  | [item], _, before, _, _ => by
    rw [itemTokens, foldlM_tokens item, foldlM_cons_of_step rfl, List.reverse_cons]
  | item :: next :: items, _, before, stack, rest => by
    have split : itemTokens (item :: next :: items) = item.tokens ++ .comma :: itemTokens (next :: items) := rfl
    rw [split, List.append_assoc, foldlM_tokens item, List.cons_append, foldlM_cons_of_step rfl,
      foldlM_itemTokens (next :: items) (List.cons_ne_nil next items), List.reverse_cons, List.append_assoc,
      List.singleton_append]

theorem foldlM_memberTokens : (members : List (Option String × Json)) → members ≠ [] →
    (before : List (Option String × Json)) → (stack : List Frame) → (rest : List Token) →
    (memberTokens members ++ .objectEnd :: rest).foldlM step ⟨stack, .key before⟩ =
      rest.foldlM step ⟨stack, .after (.object (before.reverse ++ members))⟩
  | [(key, value)], _, before, _, _ => by
    rw [memberTokens, List.cons_append, List.cons_append, foldlM_cons_of_step rfl, foldlM_cons_of_step rfl,
      foldlM_tokens value, foldlM_cons_of_step rfl, List.reverse_cons]
  | (key, value) :: next :: members, _, before, stack, rest => by
    have split : memberTokens ((key, value) :: next :: members) =
        .string key :: .colon :: (value.tokens ++ .comma :: memberTokens (next :: members)) := rfl
    rw [split, List.cons_append, List.cons_append, foldlM_cons_of_step rfl, foldlM_cons_of_step rfl,
      List.append_assoc, foldlM_tokens value, List.cons_append, foldlM_cons_of_step rfl,
      foldlM_memberTokens (next :: members) (List.cons_ne_nil next members), List.reverse_cons, List.append_assoc,
      List.singleton_append]

end

theorem ofTokens?_tokens (j : Json) : ofTokens? j.tokens = some j := by
  have run := foldlM_tokens j [] []
  rw [List.append_nil, List.foldlM_nil] at run
  rw [ofTokens?, run]
  rfl

theorem endsNumber_blanks {blanks : List Char} (blank : ∀ c ∈ blanks, isBlank c = true) : EndsNumber blanks := by
  intro c first
  have member := blank c (List.mem_of_mem_head? first)
  simp only [isBlank, Bool.or_eq_true, decide_eq_true_eq] at member
  rcases member with ((rfl | rfl) | rfl) | rfl <;> decide

theorem toList_render (j : Json) : j.render.toList = j.tokens.flatMap (·.text.toList) := by
  rw [render, String.toList_join, List.flatMap_map]

/-- Every tree is read back from its text, and blanks around the text do not count. -/
theorem parse?_render (j : Json) {before after : String} (blankBefore : ∀ c ∈ before.toList, isBlank c = true)
    (blankAfter : ∀ c ∈ after.toList, isBlank c = true) : parse? (before ++ j.render ++ after) = some j := by
  have nothing : lex? after.toList = some [] := by
    rw [← List.append_nil after.toList, lex?_blanks_append blankAfter, lex?]
  have whole : lex? (before ++ j.render ++ after).toList = some j.tokens := by
    rw [String.toList_append, String.toList_append, List.append_assoc, lex?_blanks_append blankBefore,
      toList_render, lex?_flatMap_text (apart_tokens j) (endsNumber_blanks blankAfter), nothing, Option.map_some,
      List.append_nil]
  rw [parse?, whole, Option.bind_some, ofTokens?_tokens]

end Json

end Dalvik
