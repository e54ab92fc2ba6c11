import DocTemplate.Chunk

/-!
# Markup events

What a template consists of once its markup is read: elements that start,
elements that end, and character data.  An element without content is one that
starts and ends at once.  Comments, instructions and declarations leave no
trace.
-/

namespace DocTemplate
namespace Markup

inductive Event
  | start (name : String) (own : OwnAttributes)
  | stop (name : String)
  | text (contents : String)
deriving DecidableEq, Repr

end Markup
end DocTemplate
