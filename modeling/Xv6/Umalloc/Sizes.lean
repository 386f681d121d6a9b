import Xv6.Umalloc.Allocator

namespace Xv6
namespace Umalloc

variable {h h' : Heap} {base fuel rounds n p : Nat}

end Umalloc
end Xv6
