import PackedTable.Table.Scan

/-!
The written form of a table: its static and dynamic parts, or the elements it holds.
-/

namespace PackedTable

variable {shape : Shape} {length : Nat} {binding : Binding shape length}

namespace Binding

def text (binding : Binding shape length) : String :=
  s!"Arrays \x7b geometry: {binding.geometry.text}, slots_per_group: {binding.slots}, " ++
    s!"entry: {shape.entry.text} \x7d"

end Binding

namespace Table

def text (table : Table binding) : String :=
  s!"RawTable \x7b arrays: {binding.text}, size: {table.size}, max_load: {table.maxLoad}, .. \x7d"

def contentText (table : Table binding) (key : shape.Key → String)
    (value : shape.Value → String) : String :=
  let items := table.entries.map fun (k, v) => key k ++ ": " ++ value v
  "\x7b" ++ ", ".intercalate items ++ "\x7d"

end Table

end PackedTable
