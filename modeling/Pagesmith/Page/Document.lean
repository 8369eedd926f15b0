import Pagesmith.Page.Config
import Pagesmith.Page.Section
import Pagesmith.Page.Template

/-!
# Parsed pages

A page source in its parts: the configuration, the logic, and the template as it is written and as
it is compiled.
-/

namespace Pagesmith.Page

structure Document where
  config : Config
  logic : List Char
  source : List Char
  template : Template
  deriving DecidableEq, Repr

def Document.parse (tags : TagTable) (mode : Mode) (source : List Char) : Document :=
  let s := extractSections mode source
  { config := .ofText (s.get .config)
    logic := s.get .logic
    source := s.get .template
    template := .compile tags (s.get .template) }

end Pagesmith.Page
