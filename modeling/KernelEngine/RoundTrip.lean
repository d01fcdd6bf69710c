import KernelEngine.Http.Wire

namespace KernelEngine.RoundTrip
open Rust Http

/-- A response made by a chain of calls, one of which sets the body, and the order in
which its headers are written. -/
structure Sent where
  code : ℕ
  chain : List Build
  order : List (Str × Str)
  allowed : ∀ b ∈ chain, b.Allowed
  hasBody : ∃ b ∈ chain, b.setsBody = true
  perm : order.Perm (build code chain).fields

namespace Sent

def response (m : Sent) : HttpResponse := build m.code m.chain

def bytes (m : Sent) : Bytes := m.response.toBytes m.order

end Sent

/-- A keep-alive connection carries its responses apart, whatever their bodies hold. -/
theorem connection_decodes (l : List Sent) :
    Wire.responses (l.flatMap Sent.bytes) = some (l.map fun m => m.response.message) := by
  have hread (m : Sent) : Codec.Reads Wire.response m.bytes m.response.message :=
    Wire.reads_response (sound_build m.code m.allowed)
      (measured_build m.code (fun b hb => (m.allowed b hb).sparesLength) m.hasBody) m.perm
  have hwords : ∀ p ∈ l.map fun m => (m.bytes, m.response.message),
      Codec.Reads Wire.response p.1 p.2 ∧ p.1 ≠ [] :=
    List.forall_mem_map.mpr fun m _ => ⟨hread m, Wire.toBytes_ne_nil m.response m.order⟩
  have hall := Codec.all_flatMap hwords
  rw [List.flatMap_map, List.map_map] at hall
  exact hall

/-- A body that looks like the end of a head and another response behind it. -/
def nestedChain : List Build :=
  [.withHeader "X-Note".toList "a: b".toList,
    .text "\r\n\r\nHTTP/1.1 404 Not Found\r\n\r\n".toList]

def nested : Sent where
  code := 200
  chain := nestedChain
  order := (build 200 nestedChain).fields.reverse
  allowed := by
    have hnote : FitsLine ("X-Note".toList, "a: b".toList) :=
      ⟨by dsimp only; decide, by dsimp only; decide⟩
    exact List.forall_mem_cons.mpr ⟨⟨hnote, by decide⟩, List.forall_mem_singleton.mpr trivial⟩
  hasBody := ⟨_, List.mem_cons_of_mem _ List.mem_cons_self, rfl⟩
  perm := List.reverse_perm _

theorem nested_decodes :
    Wire.responses ([nested, nested].flatMap Sent.bytes) =
      some [nested.response.message, nested.response.message] :=
  connection_decodes [nested, nested]

end KernelEngine.RoundTrip
