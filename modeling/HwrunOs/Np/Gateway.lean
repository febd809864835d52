import HwrunOs.Np.NetDev

/-!
# The default gateway

`/proc/net/route` prints an address as the hexadecimal value of the word that holds its bytes in
network order. On a little-endian host `inet_ntop` expects that very word; `proc_default_gateway` of
`np/src/np_interface.c` swaps its bytes once more.
-/

namespace HwrunOs.Np

open HwrunOs.Bytes HwrunOs.Endian

/-- `ntohl` of a little-endian host. -/
def ntohl (word : Nat) : Nat := leValue (leBytes 4 word).reverse

/-- The dotted notation of the bytes of an address. -/
def dotted (bytes : List UInt8) : CString :=
  [46].intercalate (bytes.map fun byte => decimal byte.toNat)

/-- `inet_ntop(AF_INET, ..)`: the bytes of the word as they lie in memory. -/
def inetNtop (word : Nat) : CString := dotted (leBytes 4 word)

/-- The format of `proc_default_gateway`. -/
def gatewayFormat : List Conversion :=
  [.word 15, .hex, .hex, .skipHex, .skipNumber, .skipNumber, .number, .hex]

/-- The gateway on a line when it is that of a default route. -/
def defaultGateway (line : CString) : Option CString :=
  match sscanf gatewayFormat line with
  | [.word _, .number dest, .number gateway, .number _, .number _] =>
    if dest = 0 ∧ gateway ≠ 0 then some (inetNtop (ntohl (gateway % 2 ^ 32))) else none
  | _ => none

/-- `proc_default_gateway`. -/
def procDefaultGateway (files : CString → Option CString) : CString :=
  match files (lit "/proc/net/route") with
  | none => []
  | some text => (((fgetsLines 512 text).drop 1).findSome? defaultGateway).getD []

/-! ## What the kernel prints -/

/-- The bytes of an address in network order. -/
abbrev Ipv4 := { bytes : List UInt8 // bytes.length = 4 }

/-- The address `0.0.0.0`. -/
def Ipv4.any : Ipv4 := ⟨[0, 0, 0, 0], rfl⟩

/-- The word that holds an address. -/
def Ipv4.word (address : Ipv4) : Nat := leValue address.1

/-- `%08X` of the word. -/
def Ipv4.text (address : Ipv4) : CString := address.1.reverse.flatMap hexByte

/-- An entry of the routing table. -/
structure RouteEntry where
  /-- The interface. -/
  iface : IfName
  /-- The destination. -/
  destination : Ipv4
  /-- The gateway. -/
  gateway : Ipv4
  /-- The two bytes of the flags. -/
  flags : UInt8 × UInt8
  /-- `RefCnt`. -/
  refCnt : Int
  /-- `Use`. -/
  use : Nat
  /-- `Metric`. -/
  metric : Int
  /-- The mask. -/
  mask : Ipv4
  /-- What follows: more columns and blanks. -/
  tail : CString
  /-- The columns behind the mask stand behind a blank. -/
  tail_blank : ∀ byte ∈ tail.head?, isSpace byte = true
  /-- They stand on the same line. -/
  tail_plain : newline ∉ tail

namespace RouteEntry

/-- The line of an entry. -/
def line (entry : RouteEntry) : CString :=
  entry.iface.1 ++ ([9] ++ (entry.destination.text ++ ([9] ++ (entry.gateway.text ++ ([9] ++
    (hexByte entry.flags.1 ++ hexByte entry.flags.2 ++ ([9] ++ (signedDecimal entry.refCnt ++
      ([9] ++ (decimal entry.use ++ ([9] ++ (signedDecimal entry.metric ++ ([9] ++
        (entry.mask.text ++ entry.tail))))))))))))))

/-- The entry is a default route over a gateway. -/
def IsDefault (entry : RouteEntry) : Prop :=
  entry.destination = .any ∧ entry.gateway ≠ .any

instance (entry : RouteEntry) : Decidable entry.IsDefault :=
  inferInstanceAs (Decidable (_ ∧ _))

end RouteEntry

/-- `/proc/net/route`, in lines that fit `char line[512]`. -/
structure RouteTable where
  /-- The header line. -/
  header : CString
  /-- The header is one line. -/
  header_plain : newline ∉ header ∧ header.length + 1 < 512
  /-- The entries. -/
  entries : List RouteEntry
  /-- Every line fits. -/
  line_fits : ∀ entry ∈ entries, entry.line.length + 1 < 512

namespace RouteTable

/-- The file. -/
def text (table : RouteTable) : CString :=
  (table.header :: table.entries.map RouteEntry.line).flatMap (· ++ [newline])

/-- The first default route over a gateway. -/
def default (table : RouteTable) : Option RouteEntry :=
  table.entries.find? fun entry => entry.IsDefault

/-- The text asked for: the dotted notation of its gateway. -/
def wanted (table : RouteTable) : CString :=
  (table.default.map fun entry => dotted entry.gateway.1).getD []

end RouteTable

/-! ## Addresses -/

/-- An address is printed in hexadecimal digits. -/
theorem Ipv4.text_digits (address : Ipv4) : ∀ byte ∈ address.text, isHexDigit byte = true := by
  intro byte found
  obtain ⟨part, -, inside⟩ := List.mem_flatMap.mp found
  exact (hexByte_digits part).1 byte inside

/-- The digits stand for the word. -/
theorem Ipv4.text_value (address : Ipv4) : hexDigitsValue address.text = address.word := by
  rw [Ipv4.text, hexDigitsValue_bytes, List.reverse_reverse, Ipv4.word]

/-- A word has 32 bits. -/
theorem Ipv4.word_lt (address : Ipv4) : address.word < 2 ^ 32 := by
  have bound := leValue_lt address.1
  rw [address.2] at bound
  exact bound

/-- The digits are not empty. -/
theorem Ipv4.text_ne_nil (address : Ipv4) : address.text ≠ [] := by
  obtain ⟨byte, rest, shape⟩ := List.exists_cons_of_length_eq_add_one
    (show address.1.reverse.length = 3 + 1 by rw [List.length_reverse, address.2])
  rw [Ipv4.text, shape]
  simp [hexByte]

/-- The word tells the address. -/
theorem Ipv4.word_eq_zero (address : Ipv4) : address.word = 0 ↔ address = .any := by
  constructor
  · intro zero
    have bytes := leBytes_leValue address.1
    rw [address.2, ← Ipv4.word, zero] at bytes
    exact Subtype.ext bytes.symm
  · rintro rfl
    rfl

/-- What is printed of a word that was swapped: its bytes backwards. -/
theorem inetNtop_ntohl (address : Ipv4) :
    inetNtop (ntohl (address.word % 2 ^ 32)) = dotted address.1.reverse := by
  have bytes := leBytes_leValue address.1
  have back := leBytes_leValue address.1.reverse
  rw [address.2] at bytes
  rw [List.length_reverse, address.2] at back
  rw [inetNtop, ntohl, Nat.mod_eq_of_lt address.word_lt, Ipv4.word, bytes, back]

/-- The dotted notation tells the bytes. -/
theorem dotted_injective {first second : List UInt8} (filled : first ≠ []) (other : second ≠ [])
    (same : dotted first = dotted second) : first = second := by
  have clean (bytes : List UInt8) :
      ∀ part ∈ bytes.map fun byte => decimal byte.toNat, (46 : UInt8) ∉ part := by
    intro part listed
    obtain ⟨byte, -, rfl⟩ := List.mem_map.mp listed
    exact decimal_notMem rfl _
  have numbers := congrArg (List.splitOn 46) same
  rw [dotted, dotted, List.splitOn_intercalate _ (clean first) (by simpa using filled),
    List.splitOn_intercalate _ (clean second) (by simpa using other)] at numbers
  refine List.map_injective_iff.mpr ?_ numbers
  intro byte next equal
  have values := congrArg digitsValue equal
  rw [digitsValue_decimal, digitsValue_decimal] at values
  exact UInt8.toNat_inj.mp values

/-! ## Entries -/

/-- An entry is one line. -/
theorem RouteEntry.line_plain (entry : RouteEntry) : newline ∉ entry.line := by
  have hex (digits : CString) (numerals : ∀ byte ∈ digits, isHexDigit byte = true) :
      newline ∉ digits := fun found => by cases numerals newline found
  have number (value : Nat) : newline ∉ decimal value := decimal_notMem rfl value
  have signed (value : Int) : newline ∉ signedDecimal value :=
    signedDecimal_notMem rfl (by decide) value
  have name : newline ∉ entry.iface.1 := fun found => by
    cases (entry.iface.2.2.2 newline found).1
  have tab : newline ∉ ([9] : CString) := by decide
  simp only [line, List.mem_append, not_or]
  exact ⟨name, tab, hex _ entry.destination.text_digits, tab, hex _ entry.gateway.text_digits, tab,
    ⟨hex _ (hexByte_digits _).1, hex _ (hexByte_digits _).1⟩, tab, signed _, tab, number _, tab,
    signed _, tab, hex _ entry.mask.text_digits, entry.tail_plain⟩

/-- What the format takes from a line. -/
theorem sscanf_entry (entry : RouteEntry) :
    ∃ metric, sscanf gatewayFormat (entry.line ++ [newline]) =
      [.word entry.iface.1, .number entry.destination.word, .number entry.gateway.word,
        .number metric, .number entry.mask.word] := by
  have tab : ∀ byte ∈ ([9] : CString), isSpace byte = true := by decide +kernel
  have blank (rest : CString) : ∀ byte ∈ ([9] ++ rest).head?, isSpace byte = true := by
    intro byte front
    obtain rfl := Option.some.inj front
    rfl
  have plain (rest : CString) : ∀ byte ∈ ([9] ++ rest).head?, isDigit byte = false := by
    intro byte front
    obtain rfl := Option.some.inj front
    rfl
  have ends : ∀ byte ∈ (entry.tail ++ [newline]).head?, isSpace byte = true := by
    intro byte front
    cases shape : entry.tail with
    | nil =>
      rw [shape] at front
      obtain rfl := Option.some.inj front
      rfl
    | cons first rest =>
      rw [shape] at front
      refine entry.tail_blank byte ?_
      rw [shape]
      exact front
  have bound (address : Ipv4) : hexDigitsValue address.text < 2 ^ 64 := by
    have small := address.word_lt
    rw [address.text_value]
    omega
  have flags : ∀ byte ∈ hexByte entry.flags.1 ++ hexByte entry.flags.2,
      isHexDigit byte = true := by
    intro byte found
    rcases List.mem_append.mp found with high | low
    · exact (hexByte_digits _).1 byte high
    · exact (hexByte_digits _).1 byte low
  refine ⟨unsigned64 (decide (entry.metric < 0)) entry.metric.natAbs, ?_⟩
  simp only [RouteEntry.line, List.append_assoc]
  rw [gatewayFormat, sscanf_cons (scan_word entry.iface.2.1
      (fun byte found => (entry.iface.2.2.2 byte found).1) entry.iface.2.2.1 (blank _)),
    sscanf_cons (scan_hex tab entry.destination.text_ne_nil entry.destination.text_digits
      (bound _) (blank _)),
    sscanf_cons (scan_hex tab entry.gateway.text_ne_nil entry.gateway.text_digits
      (bound _) (blank _))]
  rw [← List.append_assoc (hexByte _) (hexByte _),
    sscanf_cons (scan_skipHex tab (by simp [hexByte]) flags (blank _)),
    sscanf_cons (scan_skipSigned tab (plain _)),
    sscanf_cons (scan_skipNumber tab (plain _)),
    sscanf_cons (scan_signed tab (plain _)),
    sscanf_cons (scan_hex tab entry.mask.text_ne_nil entry.mask.text_digits (bound _) ends)]
  simp only [Ipv4.text_value]
  rfl

/-- The gateway that is found on the line of an entry is that of a default route, backwards. -/
theorem defaultGateway_entry (entry : RouteEntry) :
    defaultGateway (entry.line ++ [newline]) =
      if entry.IsDefault then some (dotted entry.gateway.1.reverse) else none := by
  obtain ⟨metric, read⟩ := sscanf_entry entry
  have chosen : (entry.destination.word = 0 ∧ entry.gateway.word ≠ 0) ↔ entry.IsDefault := by
    rw [RouteEntry.IsDefault, Ipv4.word_eq_zero, ne_eq, Ipv4.word_eq_zero]
  rw [defaultGateway, read]
  dsimp only
  rw [inetNtop_ntohl]
  simp only [chosen]

/-- What is returned for a table: the gateway of its first default route, backwards. -/
theorem procDefaultGateway_table {files : CString → Option CString} {table : RouteTable}
    (there : files (lit "/proc/net/route") = some table.text) :
    procDefaultGateway files =
      (table.default.map fun entry => dotted entry.gateway.1.reverse).getD [] := by
  have fits : ∀ line ∈ table.header :: table.entries.map RouteEntry.line,
      newline ∉ line ∧ line.length + 1 < 512 := by
    intro line inside
    rcases List.mem_cons.mp inside with rfl | inside
    · exact table.header_plain
    · obtain ⟨entry, listed, rfl⟩ := List.mem_map.mp inside
      exact ⟨entry.line_plain, table.line_fits entry listed⟩
  have read : (fgetsLines 512 table.text).drop 1 =
      table.entries.map fun entry => entry.line ++ [newline] := by
    rw [RouteTable.text, fgetsLines_flatMap _ fits, List.map_cons, List.drop_succ_cons,
      List.drop_zero, List.map_map]
    rfl
  have each (entry : RouteEntry) :
      (defaultGateway ∘ fun entry : RouteEntry => entry.line ++ [newline]) entry =
        if entry.IsDefault then some (dotted entry.gateway.1.reverse) else none :=
    defaultGateway_entry entry
  have search (entries : List RouteEntry) :
      (entries.findSome? fun entry =>
        if entry.IsDefault then some (dotted entry.gateway.1.reverse) else none) =
        (entries.find? fun entry => entry.IsDefault).map
          fun entry => dotted entry.gateway.1.reverse := by
    induction entries with
    | nil => rfl
    | cons entry entries ih =>
      by_cases chosen : entry.IsDefault
      · simp [chosen]
      · simpa [chosen] using ih
  rw [procDefaultGateway, there]
  dsimp only
  rw [read, List.findSome?_map, funext each, search, RouteTable.default]

/-- The gateway is the one that was configured exactly when there is none or its bytes are the same
backwards. -/
theorem procDefaultGateway_wanted_iff {files : CString → Option CString} {table : RouteTable}
    (there : files (lit "/proc/net/route") = some table.text) :
    procDefaultGateway files = table.wanted ↔
      ∀ entry ∈ table.default, entry.gateway.1.reverse = entry.gateway.1 := by
  rw [procDefaultGateway_table there, RouteTable.wanted]
  cases table.default with
  | none => simp
  | some entry =>
    have four (bytes : List UInt8) (length : bytes.length = 4) : bytes ≠ [] :=
      List.ne_nil_of_length_pos (by omega)
    have filled := four entry.gateway.1 entry.gateway.2
    have back := four entry.gateway.1.reverse (by rw [List.length_reverse, entry.gateway.2])
    simp only [Option.map_some, Option.getD_some, Option.mem_some_iff, forall_eq']
    constructor
    · intro same
      exact dotted_injective back filled same
    · intro same
      rw [same]

/-! ## A home router -/

/-- The default route over 192.168.1.1. -/
def homeRoute : RouteEntry where
  iface := ⟨lit "eth0", by decide, by decide, by decide +kernel⟩
  destination := .any
  gateway := ⟨[192, 168, 1, 1], rfl⟩
  flags := (0, 3)
  refCnt := 0
  use := 0
  metric := 100
  mask := .any
  tail := lit "\t0\t0\t0"
  tail_blank := by decide +kernel
  tail_plain := by decide +kernel

/-- The table with that route. -/
def homeTable : RouteTable where
  header := lit "Iface\tDestination\tGateway"
  header_plain := by decide
  entries := [homeRoute]
  line_fits := by
    intro entry listed
    obtain rfl := List.mem_singleton.mp listed
    decide +kernel

/-- A system with that table. -/
def homeFiles (path : CString) : Option CString :=
  if path = lit "/proc/net/route" then some homeTable.text else none

/-- The gateway is reported as 1.1.168.192. -/
theorem home_reversed :
    procDefaultGateway homeFiles = lit "1.1.168.192" ∧ homeTable.wanted = lit "192.168.1.1" ∧
      procDefaultGateway homeFiles ≠ homeTable.wanted := by
  have read : procDefaultGateway homeFiles = lit "1.1.168.192" := by decide +kernel
  have asked : homeTable.wanted = lit "192.168.1.1" := by decide +kernel
  refine ⟨read, asked, ?_⟩
  rw [read, asked]
  decide

/-- The condition at that table. -/
theorem procDefaultGateway_wanted_home :
    procDefaultGateway homeFiles = homeTable.wanted ↔
      ∀ entry ∈ homeTable.default, entry.gateway.1.reverse = entry.gateway.1 :=
  procDefaultGateway_wanted_iff (if_pos rfl)

end HwrunOs.Np
