import NestedRead.Catalog.Definition
import NestedRead.Notice
import NestedRead.Traced

/-!
# Loading a catalog

The catalog of a definition, with a notice when it is ready.
-/

set_option autoImplicit false

namespace NestedRead

namespace CatalogDefinition

def load (definition : CatalogDefinition) : Traced Notice CatalogError Catalog := do
  let catalog ← Traced.ofExcept definition.toCatalog
  Traced.emit (.catalogReady catalog.size)
  return catalog

end CatalogDefinition
end NestedRead
