import RobotCtl.Library.Number
import RobotCtl.Library.Split

/-! # IPv4 addresses

Four octets in decimal, without leading zeros, between dots.
-/

namespace Text

/-- An IPv4 address. -/
structure Ipv4Addr where
  a : Fin 256
  b : Fin 256
  c : Fin 256
  d : Fin 256
  deriving DecidableEq, Repr

/-- Reads one octet: at most three digits, and no leading zero but in zero itself. -/
def parseOctet (s : Str) : Option (Fin 256) :=
  if h : (s ≠ [] ∧ s.all isDigit = true ∧ s.length ≤ 3 ∧ (s.head? = some '0' → s.length = 1)) ∧
      digitsValue s < 256 then some ⟨digitsValue s, h.2⟩ else none

namespace Ipv4Addr

def fromStr (s : Str) : Option Ipv4Addr :=
  match (split '.' s).map parseOctet with
  | [some a, some b, some c, some d] => some ⟨a, b, c, d⟩
  | _ => none

def octets (ip : Ipv4Addr) : List Str := [ip.a, ip.b, ip.c, ip.d].map fun n => decimal n.val

def display (ip : Ipv4Addr) : Str := joinWith ['.'] ip.octets

end Ipv4Addr

theorem parseOctet_decimal : ∀ n : Fin 256, parseOctet (decimal n.val) = some n := by
  decide +kernel

namespace Ipv4Addr

variable {ip : Ipv4Addr} {c : Char}

theorem isDigit_of_mem_octets {o : Str} (h : o ∈ ip.octets) : ∀ c ∈ o, isDigit c = true := by
  obtain ⟨n, -, rfl⟩ := List.mem_map.mp h
  exact fun c hc => isDigit_of_mem_decimal hc

/-- An address is displayed in digits and dots. -/
theorem mem_display (h : c ∈ ip.display) : isDigit c = true ∨ c = '.' := by
  simp only [display, joinWith, octets, List.map_cons, List.map_nil, List.intercalate,
    List.intersperse_cons_cons, List.intersperse_singleton, List.flatten_cons, List.flatten_nil,
    List.mem_append, List.mem_singleton, List.not_mem_nil, or_false] at h
  have hd : ∀ n : Fin 256, c ∈ decimal n.val → isDigit c = true := fun n => isDigit_of_mem_decimal
  rcases h with h | h | h | h | h | h | h
  · exact Or.inl (hd _ h)
  · exact Or.inr h
  · exact Or.inl (hd _ h)
  · exact Or.inr h
  · exact Or.inl (hd _ h)
  · exact Or.inr h
  · exact Or.inl (hd _ h)

@[simp] theorem fromStr_display (ip : Ipv4Addr) : fromStr ip.display = some ip := by
  have hs : split '.' ip.display = ip.octets := by
    refine split_joinWith (fun o ho hm => ?_) (by simp [octets])
    exact absurd (isDigit_of_mem_octets ho '.' hm) (by decide)
  simp only [fromStr, hs, octets, List.map_cons, List.map_nil, parseOctet_decimal]

end Ipv4Addr

end Text
