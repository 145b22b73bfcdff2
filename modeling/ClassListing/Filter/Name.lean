import ClassListing.Filter

/-!
The filters over class names.
-/

namespace ClassListing.NameFilter

def platformPackages : List String :=
  ["java.", "javax.", "org.ietf.jgss.", "org.omg.", "org.w3c.dom.", "org.xml.sax."]

def beginsWithAny (texts : List String) (name : String) : Bool :=
  texts.any fun t => t.toList.isPrefixOf name.toList

def beginning (name : String) (texts : List String) : Criterion String :=
  ⟨name, beginsWithAny texts⟩

def platform : Criterion String := beginning "JDK" platformPackages

end ClassListing.NameFilter
