import CacheClient.Proofs.Codec.Numbers
import CacheClient.Proofs.Operation

/-!
# Responses

What an operation makes of a response. It takes a response if the response has the shape in which
its command is answered (`Denotes.isSome_answer?`). It then reads the items in the response, and
fails if one of them cannot be read (`read_of_answer?`): because the bytes of the item cannot be
unpacked, or are not of the type that the flags say (`Codec.exists_of_decode_eq_error`).
-/

namespace CacheClient

/-! ## Shapes of responses -/

/-- The response has the shape in which the command is answered. -/
def Command.expects : Command → Response → Bool
  | .get _, .item _ | .gets _, .item _ => true
  | .getMulti _, .items _ | .getsMulti _, .items _ => true
  | .store .., .store _ | .cas .., .store _ => true
  | .incr .., .counter _ | .decr .., .counter _ => true
  | .delete _, .deleted _ => true
  | .flushAll, .ok => true
  | .stats, .stats _ => true
  | .version, .version _ => true
  | _, _ => false

/-- An operation takes the responses that its command expects. -/
theorem Operation.Denotes.isSome_answer? {config : Config} {token? : Key → Option Token}
    {op : Operation} {command : Command} (h : Denotes config token? op command)
    (response : Response) : (op.answer? response).isSome = command.expects response := by
  cases h <;> cases response <;> rfl

/-! ## Values in responses -/

namespace Codec

/-- Bytes that cannot be read cannot be unpacked, or are not of the type that their flags say. -/
theorem exists_of_decode_eq_error {data : Bytes} {bits : UInt32} {e : Error}
    (h : decode data bits = .error e) :
    (∃ cause, e = .type cause) ∨ ∃ cause, e = .compression cause := by
  cases hunpack : unpack data bits with
  | error cause =>
    cases (decode_of_unpack_eq_error hunpack).symm.trans h
    exact .inr ⟨cause, rfl⟩
  | ok plain =>
    rw [decode_of_unpack_eq_ok hunpack] at h
    rcases interpret_cases _ plain with ⟨v, hv, -⟩ | ⟨cause, hcause⟩
    · cases hv.symm.trans h
    · cases hcause.symm.trans h
      exact .inl ⟨cause, rfl⟩

end Codec

/-- The items in a response that are read for the answer. A single item without bytes is not. -/
def Response.payloads : Response → List Item
  | .item (some i) => if i.data.isEmpty then [] else [i]
  | .items found => found.toList.map (·.2)
  | _ => []

/-- There is a result if all the items can be read, and otherwise the error of one that cannot. -/
def Item.Read {α : Type} (items : List Item) : Except Error α → Prop
  | .ok _ => ∀ item ∈ items, ∃ v, Codec.decode item.data item.flags = .ok v
  | .error e => ∃ item ∈ items, Codec.decode item.data item.flags = .error e

theorem Item.Read.error_cases {α : Type} {items : List Item} {e : Error}
    (h : Item.Read items (.error e : Except Error α)) :
    (∃ cause, e = .type cause) ∨ ∃ cause, e = .compression cause := by
  obtain ⟨item, -, hdecode⟩ := h
  exact Codec.exists_of_decode_eq_error hdecode

namespace Operation

theorem read_hit? (item? : Option Item) :
    Item.Read (Response.item item?).payloads (hit? item?) := by
  cases item? with
  | none => simp [Item.Read, hit?, Response.payloads]
  | some item =>
    by_cases hempty : item.data.isEmpty
    · simp [Item.Read, hit?, Response.payloads, hempty]
    · cases hdecode : Codec.decode item.data item.flags <;>
        simp [Item.Read, hit?, Response.payloads, hempty, valueOf, hdecode, Except.map]

theorem read_hits (items : KeyMap Item) :
    Item.Read (Response.items items).payloads (hits items) := by
  cases hresult : hits items with
  | error e =>
    obtain ⟨k, item, hitem, herror⟩ := exists_of_hits_eq_error hresult
    have hmem := Std.ExtTreeMap.mem_toList_iff_getElem?_eq_some.2 hitem
    exact ⟨item, List.mem_map_of_mem (f := (·.2)) hmem, herror⟩
  | ok values =>
    intro item hitem
    obtain ⟨entry, hmem, rfl⟩ := List.mem_map.1 hitem
    cases hvalue : valueOf entry.2 with
    | ok v => exact ⟨v, hvalue⟩
    | error e =>
      rw [hits] at hresult
      split at hresult
      · cases hresult
      · next hnone =>
        have hok := List.findSome?_eq_none_iff.1 hnone entry hmem
        cases (errorOf?_eq_some.2 hvalue).symm.trans hok

/-- An answer is the outcome of reading the items in the response. -/
theorem read_of_answer? {op : Operation} {response : Response} {result : Except Error op.Answer}
    (h : op.answer? response = some result) : Item.Read response.payloads result := by
  cases op with
  | get source | gets source =>
    cases response with
    | item item? =>
      cases h
      exact read_hit? item?
    | _ => cases h
  | getMulti sources | getsMulti sources =>
    cases response with
    | items items =>
      cases h
      exact read_hits items
    | _ => cases h
  | _ =>
    cases response <;> cases h
    all_goals simp [Item.Read, Response.payloads]

end Operation

end CacheClient
